import Relink.Files.Tree
import Relink.Proofs.Path.Below

/-!
# Filling a tree

Files are put into a tree (`MemoryFs`) one after another, under paths spelled in any way. What the tree
answers afterwards can be read off the list of what was put there.

Results:
* `contents?_putAll`: a file holds what was put at its place last.
* `isDir_iff`, `mem_places_putAll`: a directory is what lies above the place of some file.
* `isDir_insert_iff`, `isDir_of_isFile_join`: directories after one more file, and above a file.
* `contents?_without_of_ne`, `isDir_of_isDir_without`: what is left when a file is taken out.
* `contents?_below`, `isDir_below`: filled below a directory, a tree answers for the names below it,
  and nothing else of the directory counts. `contents?_below_of_not_prefix`: it holds nothing
  elsewhere.
-/

namespace Relink

namespace FileTree

/-- Where the files are. -/
def places (t : FileTree) : List Path :=
  t.files.map Prod.fst

/-- Puts files into the tree, one after another. -/
def putAll (t : FileTree) (files : List (Path × String)) : FileTree :=
  files.foldl (fun t file => t.insert file.1 file.2) t

theorem mem_places_insert {t : FileTree} {p q : Path} {contents : String} :
    q ∈ (t.insert p contents).places ↔ q = p.normal ∨ q ∈ t.places := by
  unfold places insert
  by_cases hq : q = p.normal
  · simp [hq]
  · simp only [List.map_cons, List.mem_cons, List.mem_map, List.mem_filter, hq, false_or]
    refine exists_congr fun file => ⟨fun h => ⟨h.1.1, h.2⟩, fun h => ⟨⟨h.1, ?_⟩, h.2⟩⟩
    simpa [h.2] using hq

/-- The places in a filled tree are those it had and those that files were put at. -/
theorem mem_places_putAll {t : FileTree} {files : List (Path × String)} {q : Path} :
    q ∈ (t.putAll files).places ↔ q ∈ t.places ∨ ∃ file ∈ files, file.1.normal = q := by
  unfold putAll
  induction files generalizing t with
  | nil => simp
  | cons file rest ih =>
    simp only [List.foldl_cons, ih, mem_places_insert, List.mem_cons, exists_eq_or_imp]
    rw [eq_comm, or_assoc, or_left_comm]

/-- **A file holds what was put at its place last**, or what was there before. -/
theorem contents?_putAll (t : FileTree) (files : List (Path × String)) (p : Path) :
    (t.putAll files).contents? p =
      ((files.reverse.find? fun file => file.1.normal = p.normal).map Prod.snd).or
        (t.contents? p) := by
  unfold putAll
  induction files generalizing t with
  | nil => rfl
  | cons file rest ih =>
    rw [List.foldl_cons, ih, List.reverse_cons, List.find?_append, Option.map_or, Option.or_assoc]
    congr 1
    by_cases h : p.normal = file.1.normal
    · rw [contents?_insert_self t file.2 h, List.find?_cons_of_pos (by simp [h])]
      rfl
    · rw [contents?_insert_of_ne t file.2 h, List.find?_cons_of_neg (by simpa using Ne.symm h)]
      rfl

/-- A directory is what lies above the place of some file. -/
theorem isDir_iff {t : FileTree} {p : Path} :
    t.isDir p = true ↔ ∃ q ∈ t.places, q ≠ p.normal ∧ q.startsWith p.normal = true := by
  unfold isDir places
  simp

/-- A directory is what was one, and what lies above the new file. -/
theorem isDir_insert_iff {t : FileTree} {p d : Path} {contents : String} :
    (t.insert p contents).isDir d = true ↔
      t.isDir d = true ∨ p.normal ≠ d.normal ∧ p.normal.startsWith d.normal = true := by
  rw [isDir_iff, isDir_iff]
  simp only [mem_places_insert, or_and_right, exists_or, exists_eq_left]
  exact Or.comm

theorem isFile_iff {t : FileTree} {p : Path} : t.isFile p = true ↔ p.normal ∈ t.places := by
  unfold isFile contents? places
  simp

/-- A file that was there already adds none. -/
theorem isFile_insert_of_isFile {t : FileTree} {p q : Path} {contents : String}
    (h : t.isFile p = true) : (t.insert p contents).isFile q = t.isFile q := by
  rw [Bool.eq_iff_iff, isFile_iff, isFile_iff, mem_places_insert]
  exact or_iff_right_of_imp fun hq => hq ▸ isFile_iff.mp h

/-- What lies in a directory makes it one. -/
theorem isDir_of_isFile_join {t : FileTree} {d : Path} (hd : d.isAbsolute = true)
    (hn : d.normal = d) {n : Bytes} (hplain : Path.Plain n) (h : t.isFile (d.join ⟨n⟩) = true) :
    t.isDir d = true := by
  have hdown := (Path.leadsDown_of_normal hd hn).join hplain
  refine isDir_iff.mpr ⟨_, isFile_iff.mp h, fun hsame => ?_, ?_⟩
  · rw [Path.normal_eq_iff_names hdown.isAbsolute hd, hdown.names_eq] at hsame
    exact absurd (congrArg List.length hsame) (by simp)
  · rw [Path.startsWith_normal_iff hdown.isAbsolute hd, hdown.names_eq]
    exact List.prefix_append _ _

/-! ## Taking a file out -/

/-- The tree without the file at a path. -/
def without (t : FileTree) (p : Path) : FileTree :=
  let place := p.normal
  ⟨t.files.filter fun file => file.1 ≠ place⟩

theorem mem_places_without {t : FileTree} {p q : Path} :
    q ∈ (t.without p).places ↔ q ∈ t.places ∧ q ≠ p.normal := by
  unfold places without
  simp only [List.mem_map, List.mem_filter, decide_eq_true_eq]
  constructor
  · rintro ⟨file, ⟨hfile, hne⟩, rfl⟩
    exact ⟨⟨file, hfile, rfl⟩, hne⟩
  · rintro ⟨⟨file, hfile, rfl⟩, hne⟩
    exact ⟨file, ⟨hfile, hne⟩, rfl⟩

/-- What is put where a file was taken out might as well have replaced it. -/
theorem insert_without (t : FileTree) (p : Path) (contents : String) :
    (t.without p).insert p contents = t.insert p contents := by
  unfold insert without
  simp

theorem contents?_without_of_ne (t : FileTree) {p q : Path} (h : q.normal ≠ p.normal) :
    (t.without p).contents? q = t.contents? q := by
  rw [← contents?_insert_of_ne (t.without p) "" h, insert_without, contents?_insert_of_ne t "" h]

theorem isFile_without_self (t : FileTree) (p : Path) : (t.without p).isFile p = false := by
  rw [Bool.eq_false_iff, Ne, isFile_iff, mem_places_without]
  exact fun h => h.2 rfl

theorem isDir_of_isDir_without {t : FileTree} {p d : Path} (h : (t.without p).isDir d = true) :
    t.isDir d = true := by
  obtain ⟨q, hq, hbelow⟩ := isDir_iff.mp h
  exact isDir_iff.mpr ⟨q, (mem_places_without.mp hq).1, hbelow⟩

/-! ## Filling below a directory -/

/-- The tree of files below a directory, put there one after another. -/
def below (base : Path) (files : List (Path.Descent × String)) : FileTree :=
  empty.putAll (files.map fun file => (base.below file.1, file.2))

/-- What was put last at the place that these names lead to. -/
def contentsAt? (files : List (Path.Descent × String)) (names : List Bytes) : Option String :=
  (files.reverse.find? fun file => file.1.names = names).map Prod.snd

theorem mem_of_contentsAt? {files : List (Path.Descent × String)} {names : List Bytes}
    {contents : String} (h : contentsAt? files names = some contents) :
    ∃ file ∈ files, file.1.names = names ∧ file.2 = contents := by
  obtain ⟨file, hfile, hcontents⟩ := Option.map_eq_some_iff.mp h
  have hnames := List.find?_some hfile
  exact ⟨file, List.mem_reverse.mp (List.mem_of_find?_eq_some hfile), of_decide_eq_true hnames,
    hcontents⟩

variable {base p : Path} (hb : base.isAbsolute = true) (hp : p.isAbsolute = true)
  (files : List (Path.Descent × String))

include hb hp

theorem contents?_below {names : List Bytes} (h : p.names = base.names ++ names) :
    (below base files).contents? p = contentsAt? files names := by
  have hplace (file : Path.Descent × String) :
      (base.below file.1).normal = p.normal ↔ file.1.names = names := by
    rw [Path.normal_eq_iff_names (Path.isAbsolute_below hb _) hp, Path.names_below, h,
      List.append_right_inj]
  unfold below
  rw [contents?_putAll, ← List.map_reverse, List.find?_map, Option.map_map]
  simp only [Function.comp_def, hplace]
  exact Option.or_none

/-- Nothing lies outside the directory. -/
theorem contents?_below_of_not_prefix (h : ¬ base.names <+: p.names) :
    (below base files).contents? p = none := by
  have hplace (file : Path.Descent × String) : ¬ (base.below file.1).normal = p.normal := by
    rw [Path.normal_eq_iff_names (Path.isAbsolute_below hb _) hp, Path.names_below]
    exact fun e => h ⟨_, e⟩
  unfold below
  rw [contents?_putAll, ← List.map_reverse, List.find?_map, List.find?_eq_none.mpr]
  · rfl
  · intro file _
    simpa using hplace file

theorem isDir_below {names : List Bytes} (h : p.names = base.names ++ names) :
    (below base files).isDir p = true ↔
      ∃ file ∈ files, file.1.names ≠ names ∧ names <+: file.1.names := by
  have hplace (file : Path.Descent × String) :
      (base.below file.1).normal ≠ p.normal ∧
          (base.below file.1).normal.startsWith p.normal = true ↔
        file.1.names ≠ names ∧ names <+: file.1.names := by
    have habs := Path.isAbsolute_below hb file.1
    rw [Path.startsWith_normal_iff habs hp, Ne, Path.normal_eq_iff_names habs hp,
      Path.names_below, h, List.append_right_inj, List.prefix_append_right_inj]
  unfold below
  rw [isDir_iff]
  constructor
  · rintro ⟨q, hq, hbelow⟩
    rcases mem_places_putAll.mp hq with hq | ⟨_, hmem, rfl⟩
    · exact absurd hq List.not_mem_nil
    · obtain ⟨file, hfile, rfl⟩ := List.mem_map.mp hmem
      exact ⟨file, hfile, (hplace file).mp hbelow⟩
  · rintro ⟨file, hfile, hbelow⟩
    refine ⟨_, mem_places_putAll.mpr (Or.inr ⟨_, List.mem_map_of_mem hfile, rfl⟩), ?_⟩
    exact (hplace file).mpr hbelow

end FileTree

end Relink
