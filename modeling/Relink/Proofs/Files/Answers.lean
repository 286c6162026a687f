import Mathlib.Data.List.Find
import Relink.Proofs.Files.Tree
import Relink.Proofs.Path.Canonical

/-!
# What a filled tree answers

However files were put into a tree (`insert` of `MemoryFs`), and under whatever spellings, the tree
keeps each of them at one place, spelled in normal form (`Tidy`). Places may then be compared by their
spelling or step by step, which comes to the same, and what a tree answers about a path can be read off
the list of what was put into it.

Results:
* `tidy_putAll`: the places of a filled tree are normal, and no two of them are the same path.
* `Tidy.contents?_eq`, `Tidy.isDir_eq`, `Tidy.insert_eq`: a tree that compares places step by step does
  the same.
* `contents?_putAll_eq_some_iff`: the last file that was put at a place is the one that is read there.
* `putAll_answers`: files, contents and directories after any filling.
-/

namespace Relink

/-- The last entry of which something is true stands before others of which it is not. -/
theorem find?_reverse_eq_some_iff {α : Type} {P : α → Bool} {xs : List α} {x : α} :
    xs.reverse.find? P = some x ↔
      ∃ before after, xs = before ++ x :: after ∧ P x = true ∧ ∀ y ∈ after, P y = false := by
  rw [List.find?_eq_some_iff_append]
  constructor
  · rintro ⟨hx, passed, rest, hxs, hpassed⟩
    refine ⟨rest.reverse, passed.reverse, ?_, hx, fun y hy => ?_⟩
    · rw [← List.reverse_reverse xs, hxs]
      simp
    · simpa using hpassed y (List.mem_reverse.mp hy)
  · rintro ⟨before, after, rfl, hx, hafter⟩
    refine ⟨hx, after.reverse, before.reverse, by simp, fun y hy => ?_⟩
    simpa using hafter y (List.mem_reverse.mp hy)

namespace FileTree

/-! ## Places -/

/-- The places are spelled in normal form, and no two of them are the same path. -/
structure Tidy (t : FileTree) : Prop where
  normal : ∀ q ∈ t.places, q.normal = q
  distinct : t.places.Pairwise fun q q' => ¬ q.Same q'

namespace Tidy

variable {t : FileTree} (h : t.Tidy)

include h

/-- A place is the same as a normal path if it is spelled like it. -/
theorem same_iff {q : Path} (hq : q ∈ t.places) (p : Path) : q.Same p.normal ↔ q = p.normal :=
  Path.same_iff_eq (h.normal q hq) (Path.normal_normal p)

/-- **One more file** leaves a tree tidy. -/
theorem insert (p : Path) (contents : String) : (t.insert p contents).Tidy where
  normal q hq := by
    rcases mem_places_insert.mp hq with rfl | hq
    · exact Path.normal_normal p
    · exact h.normal q hq
  distinct := by
    unfold FileTree.insert places
    rw [List.map_cons, List.pairwise_cons]
    constructor
    · intro q hq hsame
      obtain ⟨file, hfile, rfl⟩ := List.mem_map.mp hq
      obtain ⟨hmem, hne⟩ := List.mem_filter.mp hfile
      have hplace := h.normal file.1 (List.mem_map_of_mem hmem)
      have heq := (Path.same_iff_eq (Path.normal_normal p) hplace).mp hsame
      exact of_decide_eq_true hne heq.symm
    · exact h.distinct.sublist (List.filter_sublist.map Prod.fst)

/-- **Filling** leaves a tree tidy. -/
theorem putAll (files : List (Path × String)) : (t.putAll files).Tidy := by
  unfold FileTree.putAll
  induction files generalizing t with
  | nil => exact h
  | cons file rest ih => exact ih (h.insert file.1 file.2)

/-- Looking a path up step by step finds the same contents. -/
theorem contents?_eq (p : Path) :
    t.contents? p = (t.files.find? fun file => file.1.Same p.normal).map Prod.snd := by
  have hfind : (t.files.find? fun file => file.1 = p.normal) =
      t.files.find? fun file => file.1.Same p.normal :=
    List.find?_congr fun file hfile =>
      decide_eq_decide.mpr (h.same_iff (List.mem_map_of_mem hfile) p).symm
  exact congrArg (Option.map Prod.snd) hfind

/-- Looking step by step for what lies below a path finds the same directories. -/
theorem isDir_eq (p : Path) :
    t.isDir p = t.files.any fun file => ¬ file.1.Same p.normal && file.1.startsWith p.normal := by
  unfold isDir
  rw [Bool.eq_iff_iff, List.any_eq_true, List.any_eq_true]
  refine exists_congr fun file => and_congr_right fun hfile => ?_
  rw [decide_eq_decide.mpr (not_congr (h.same_iff (List.mem_map_of_mem hfile) p))]

/-- A new file takes the place of the one that has the same steps. -/
theorem insert_eq (p : Path) (contents : String) :
    t.insert p contents =
      ⟨(p.normal, contents) :: t.files.filter fun file => ¬ file.1.Same p.normal⟩ := by
  have hkept : (t.files.filter fun file => file.1 ≠ p.normal) =
      t.files.filter fun file => ¬ file.1.Same p.normal :=
    List.filter_congr fun file hfile =>
      decide_eq_decide.mpr (not_congr (h.same_iff (List.mem_map_of_mem hfile) p)).symm
  exact congrArg (fun files => FileTree.mk ((p.normal, contents) :: files)) hkept

end Tidy

/-- **The places of a filled tree** are normal, and no two of them are the same path. -/
theorem tidy_putAll (files : List (Path × String)) : (empty.putAll files).Tidy :=
  Tidy.putAll ⟨fun _ hq => absurd hq List.not_mem_nil, List.Pairwise.nil⟩ files

/-! ## Answers -/

/-- Of several files the last one that was put at a place. -/
def LastAt (files : List (Path × String)) (place : Path) (file : Path × String) : Prop :=
  ∃ before after, files = before ++ file :: after ∧ file.1.normal = place ∧
    ∀ later ∈ after, later.1.normal ≠ place

theorem isFile_putAll_iff {files : List (Path × String)} {p : Path} :
    (empty.putAll files).isFile p = true ↔ ∃ file ∈ files, file.1.normal = p.normal := by
  rw [isFile_iff, mem_places_putAll]
  exact or_iff_right List.not_mem_nil

/-- **What is read is what was put there last.** -/
theorem contents?_putAll_eq_some_iff {files : List (Path × String)} {p : Path} {contents : String} :
    (empty.putAll files).contents? p = some contents ↔
      ∃ path, LastAt files p.normal (path, contents) := by
  have hempty : empty.contents? p = none := rfl
  rw [contents?_putAll, hempty, Option.or_none, Option.map_eq_some_iff]
  unfold LastAt
  simp only [find?_reverse_eq_some_iff, decide_eq_true_eq, decide_eq_false_iff_not]
  constructor
  · rintro ⟨⟨path, contents⟩, hlast, rfl⟩
    exact ⟨path, hlast⟩
  · rintro ⟨path, hlast⟩
    exact ⟨(path, contents), hlast, rfl⟩

theorem contents?_putAll_eq_none_iff {files : List (Path × String)} {p : Path} :
    (empty.putAll files).contents? p = none ↔ ∀ file ∈ files, file.1.normal ≠ p.normal := by
  have hsome : ((empty.putAll files).contents? p).isSome = true ↔
      ∃ file ∈ files, file.1.normal = p.normal := isFile_putAll_iff
  rw [← Option.not_isSome_iff_eq_none, hsome]
  simp

/-- **A directory is what names lead from to some file**, at least one of them. -/
theorem isDir_putAll_iff {files : List (Path × String)} {p : Path} (hp : p.isAbsolute = true) :
    (empty.putAll files).isDir p = true ↔
      ∃ d : Path.Descent, d.names ≠ [] ∧ ∃ file ∈ files, p.normal.below d = file.1.normal := by
  rw [isDir_iff]
  constructor
  · rintro ⟨q, hq, hbelow⟩
    rcases mem_places_putAll.mp hq with hq | ⟨file, hfile, rfl⟩
    · exact absurd hq List.not_mem_nil
    · obtain ⟨d, hd, hplace⟩ := (Path.startsWith_normal_iff_below hp).mp hbelow
      exact ⟨d, hd, file, hfile, hplace⟩
  · rintro ⟨d, hd, file, hfile, hplace⟩
    refine ⟨file.1.normal, mem_places_putAll.mpr (Or.inr ⟨file, hfile, rfl⟩), ?_⟩
    exact (Path.startsWith_normal_iff_below hp).mpr ⟨d, hd, hplace⟩

/-- A tree knows of a path what its normal form says. -/
theorem answers_congr (t : FileTree) {p q : Path} (h : q.normal = p.normal) :
    t.isFile q = t.isFile p ∧ t.contents? q = t.contents? p ∧ t.isDir q = t.isDir p := by
  unfold isFile contents? isDir
  rw [h]
  exact ⟨rfl, rfl, rfl⟩

/-- **A tree in memory is a file tree.** After any filling with files under any spellings, it is tidy.
There is a file at an absolute path if one was put at its normal form, what is read there is what was put
there last, and the path is a directory if one or more names lead from its normal form to the normal
form of a file. Every other spelling of the path gets the same answers. -/
theorem putAll_answers (files : List (Path × String)) {p : Path} (hp : p.isAbsolute = true) :
    let tree := empty.putAll files
    tree.Tidy ∧
      (tree.store.isFile p = true ↔ ∃ file ∈ files, file.1.normal = p.normal) ∧
      (∀ contents, tree.store.read? p = some contents ↔
        ∃ path, LastAt files p.normal (path, contents)) ∧
      (tree.store.read? p = none ↔ ∀ file ∈ files, file.1.normal ≠ p.normal) ∧
      (tree.store.isDir p = true ↔
        ∃ d : Path.Descent, d.names ≠ [] ∧ ∃ file ∈ files, p.normal.below d = file.1.normal) ∧
      ∀ q : Path, q.normal = p.normal →
        tree.store.isFile q = tree.store.isFile p ∧ tree.store.read? q = tree.store.read? p ∧
          tree.store.isDir q = tree.store.isDir p := by
  intro tree
  exact ⟨tidy_putAll files, isFile_putAll_iff, fun _ => contents?_putAll_eq_some_iff,
    contents?_putAll_eq_none_iff, isDir_putAll_iff hp, fun _ => tree.answers_congr⟩

/-- A file that is put into the tree twice, the first time by a way above the root, and asked for under a
third spelling; and its directory. -/
theorem putAll_answers_of_spellings :
    let files := [(Path.ofText "/../a/b.ts", "old"), (Path.ofText "/a//x/../b.ts", "new"),
      (Path.ofText "/ab/c.ts", "")]
    let tree := empty.putAll files
    let file := Path.ofText "//a/./b.ts/"
    let other := Path.ofText "/x/../../a/b.ts"
    let dir := Path.ofText "/a/x/.."
    (file.isAbsolute = true ∧ dir.isAbsolute = true ∧ other.normal = file.normal) ∧
      tree.store.isFile file = true ∧ tree.store.read? file = some "new" ∧
      tree.store.read? other = tree.store.read? file ∧
      tree.store.isDir dir = true ∧ tree.store.read? dir = none := by
  intro files tree file other dir
  have habs : file.isAbsolute = true ∧ dir.isAbsolute = true := by decide
  have hother : other.normal = file.normal := by decide +kernel
  obtain ⟨-, hfile, hread, -, -, hspelled⟩ := putAll_answers files habs.1
  obtain ⟨-, -, -, hnone, hdir, -⟩ := putAll_answers files habs.2
  have hlast : LastAt files file.normal (Path.ofText "/a//x/../b.ts", "new") :=
    ⟨[(Path.ofText "/../a/b.ts", "old")], [(Path.ofText "/ab/c.ts", "")], rfl, by decide +kernel,
      by decide +kernel⟩
  have hbelow : dir.normal.below ⟨[Utf8.encode "b.ts".toList], by decide⟩ =
      (Path.ofText "/../a/b.ts").normal := by decide +kernel
  refine ⟨⟨habs.1, habs.2, hother⟩, hfile.mpr ?_, (hread "new").mpr ⟨_, hlast⟩,
    (hspelled other hother).2.1, hdir.mpr ?_, hnone.mpr ?_⟩
  · exact ⟨_, List.mem_cons_self, by decide +kernel⟩
  · exact ⟨_, by decide, _, List.mem_cons_self, hbelow⟩
  · decide +kernel

end FileTree

end Relink
