import Mathlib.Data.List.Find
import Relink.Proofs.Files.Tree
import Relink.Proofs.Resolve.Candidates

/-!
# What a search looks at

A search (`resolve` of `FsResolver`) asks for its candidates, for one manifest, and whether its target
is a directory. The first two are questions about single paths, written down in `footprint`. The third
is about everything below the target: any file there makes it a directory and opens the way to the
manifest and the index files. But if it was no directory before, then neither were these there, and
nothing comes of it.

Results:
* `Sees.asDirectory_eq`, `Sees.locate_eq`: searches that see the same in the footprint find the same.
* `asDirectory_eq_none_of_not_isDir`: nothing comes of a target that is no directory.
* `sees_insert`: a file elsewhere, or other contents of one that is there, cannot be seen.
* `resolver_insert_of_unrelated`: other files do not matter to a search.
-/

namespace Relink

namespace Search

/-! ## The footprint -/

/-- The paths that a search for a target may ask for: its manifest, the target itself and its index
files, with each extension, and the same of the main file that the manifest names. -/
def footprint (s : Search) (target : Path) (extensions : List String) : List Path :=
  manifestPath target :: (mainCandidates target extensions ++
    (s.mainPath? target).toList.flatMap (mainCandidates · extensions))

/-- The second search sees in the footprint of the first what the first sees there. -/
structure Sees (s s' : Search) (target : Path) (extensions : List String) : Prop where
  isFile_eq : ∀ c ∈ s.footprint target extensions, s'.store.isFile c = s.store.isFile c
  read?_eq : s'.store.read? (manifestPath target) = s.store.read? (manifestPath target)

namespace Sees

variable {s s' : Search} {target : Path} {extensions : List String}

theorem find?_eq (h : Sees s s' target extensions) {paths : List Path}
    (hpaths : ∀ c ∈ paths, c ∈ s.footprint target extensions) :
    paths.find? s'.store.isFile = paths.find? s.store.isFile :=
  List.find?_congr fun c hc => h.isFile_eq c (hpaths c hc)

theorem mainPath?_eq (h : Sees s s' target extensions) :
    s'.mainPath? target = s.mainPath? target := by
  unfold mainPath?
  rw [h.isFile_eq _ List.mem_cons_self, h.read?_eq]

theorem asFile_eq (h : Sees s s' target extensions) :
    s'.asFile target extensions = s.asFile target extensions := by
  rw [asFile_eq_find?, asFile_eq_find?]
  refine h.find?_eq fun c hc => ?_
  exact List.mem_cons_of_mem _ (List.mem_append_left _ (List.mem_append_left _ hc))

theorem asDirectory_eq (h : Sees s s' target extensions) :
    s'.asDirectory target extensions = s.asDirectory target extensions := by
  rw [asDirectory_eq_find?, asDirectory_eq_find?, h.mainPath?_eq]
  refine h.find?_eq fun c hc => List.mem_cons_of_mem _ ?_
  rcases List.mem_append.mp hc with hmain | hindex
  · exact List.mem_append_right _ hmain
  · exact List.mem_append_left _ (List.mem_append_right _ hindex)

/-- **The target is located alike**, if it is a directory in both or if nothing comes of it as one. -/
theorem locate_eq (h : Sees s s' target extensions)
    (hdir : s'.store.isDir target = s.store.isDir target ∨ s.asDirectory target extensions = none)
    (directoryOnly : Bool) :
    s'.locate target directoryOnly extensions = s.locate target directoryOnly extensions := by
  unfold locate
  rw [h.asFile_eq, h.asDirectory_eq]
  rcases hdir with hsame | hnone
  · rw [hsame]
  · rw [hnone, ite_self, ite_self]

end Sees

/-- Nothing comes of a directory without manifest and index files. -/
theorem asDirectory_eq_none {s : Search} {dir : Path} {extensions : List String}
    (hmanifest : s.store.isFile (manifestPath dir) = false)
    (hindex : ∀ c ∈ indexCandidates dir extensions, s.store.isFile c = false) :
    s.asDirectory dir extensions = none := by
  rw [asDirectory_eq_find?, mainPath?_eq_none hmanifest, List.find?_eq_none]
  intro c hc
  rw [hindex c hc]
  exact Bool.false_ne_true

/-! ## Files that are put into a tree -/

variable {t : FileTree} {target : Path} {extensions : List String}

/-- Nothing comes of a path that is no directory, even if it is asked as one. -/
theorem asDirectory_eq_none_of_not_isDir (hd : t.isDir target = false)
    (habs : target.isAbsolute = true) (hn : target.normal = target)
    (hext : ∀ ext ∈ extensions, '/' ∉ ext.toList) (keep : Bool) :
    (⟨t.store, keep⟩ : Search).asDirectory target extensions = none := by
  have hnone {name : String} (hname : Path.Plain (Utf8.encode name.toList)) :
      t.isFile (target.join (Path.ofText name)) = false := by
    rw [Bool.eq_false_iff]
    intro hfile
    rw [FileTree.isDir_of_isFile_join habs hn hname hfile] at hd
    cases hd
  refine asDirectory_eq_none (hnone plain_manifest) fun c hc => ?_
  obtain ⟨ext, hmem, rfl⟩ := List.mem_map.mp hc
  exact hnone (Path.plain_index (hext ext hmem))

/-- A file that is put where no path of the footprint lies cannot be seen there, and neither can other
contents of a file, the manifest's aside. -/
theorem sees_insert {p : Path} {contents : String} (keep : Bool)
    (h : (∀ c ∈ (⟨t.store, keep⟩ : Search).footprint target extensions, c.normal ≠ p.normal) ∨
      t.isFile p = true ∧ (manifestPath target).normal ≠ p.normal) :
    Sees ⟨t.store, keep⟩ ⟨(t.insert p contents).store, keep⟩ target extensions := by
  constructor
  · intro c hc
    rcases h with hapart | ⟨hfile, -⟩
    · exact congrArg Option.isSome (FileTree.contents?_insert_of_ne t contents (hapart c hc))
    · exact FileTree.isFile_insert_of_isFile hfile
  · refine FileTree.contents?_insert_of_ne t contents ?_
    rcases h with hapart | ⟨-, hmanifest⟩
    · exact hapart _ List.mem_cons_self
    · exact hmanifest

/-- **Other files do not matter to a search.** For any tree, absolute directory, specifier and extensions
without slash: a file that is put where no path of the footprint lies leaves the answer as it was, and
so do other contents of a file that is there, the manifest's aside. A fault stays the same fault. -/
theorem resolver_insert_of_unrelated (t : FileTree) (keep : Bool) {dir : Path}
    (hdir : dir.isAbsolute = true) (specifier : String) {extensions : List String}
    (hext : ∀ ext ∈ extensions, '/' ∉ ext.toList) (p : Path) (contents : String) :
    let before : Search := ⟨t.store, keep⟩
    let after : Search := ⟨(t.insert p contents).store, keep⟩
    let target := (dir.join (Path.ofText specifier)).normal
    (∀ c ∈ before.footprint target extensions, c.normal ≠ p.normal) ∨
        t.isFile p = true ∧ (target.join (Path.ofText "package.json")).normal ≠ p.normal →
      after.resolver dir specifier extensions = before.resolver dir specifier extensions := by
  intro before after target h
  have habs : target.isAbsolute = true := Path.isAbsolute_normal_join hdir _
  refine resolver_eq_of_locate_eq keep ((sees_insert keep h).locate_eq ?_ _)
  cases hd : t.isDir target with
  | true => exact Or.inl ((FileTree.isDir_insert_iff.mpr (Or.inl hd)).trans hd.symm)
  | false =>
    -- The file may be what makes the target a directory, so this is asked of the tree before.
    exact Or.inr (asDirectory_eq_none_of_not_isDir hd habs (Path.normal_normal _) hext keep)

/-- A file makes the target a directory, and then the file that is answered gets other contents: the
answer is the same all along. -/
theorem resolver_insert_of_unrelated_of_notes :
    let found := Path.ofText "/p/lib.ts"
    let notes := Path.ofText "/p/lib/notes.md"
    let tree := FileTree.empty.insert found ""
    let withNotes := tree.insert notes "to do"
    let changed := withNotes.insert (Path.ofText "/p/./lib.ts") "export \x7b\x7d"
    let dir := Path.ofText "/p/src"
    tree.isDir (Path.ofText "/p/lib") = false ∧ withNotes.isDir (Path.ofText "/p/lib") = true ∧
      (⟨changed.store, true⟩ : Search).resolver dir "../lib" [".ts", ".tsx"] = .ok found := by
  intro found notes tree withNotes changed dir
  have hdir : dir.isAbsolute = true := by decide
  have hext : ∀ ext ∈ [".ts", ".tsx"], '/' ∉ ext.toList := by decide
  have hfound : (⟨tree.store, true⟩ : Search).resolver dir "../lib" [".ts", ".tsx"] = .ok found :=
    Resolver.eq_ok_of_toOption (by decide +kernel)
  have hnotes := resolver_insert_of_unrelated tree true hdir "../lib" hext notes "to do"
    (Or.inl (by decide +kernel))
  have hchanged := resolver_insert_of_unrelated withNotes true hdir "../lib" hext
    (Path.ofText "/p/./lib.ts") "export \x7b\x7d" (Or.inr (by decide +kernel))
  exact ⟨by decide +kernel, by decide +kernel, hchanged.trans (hnotes.trans hfound)⟩

end Search

end Relink
