import Relink.Proofs.Resolve.FirstCandidate
import Relink.Proofs.Resolve.Footprint

/-!
# A manifest is never worse than none

A manifest (`package_main`) can hold any text. It makes its directory one, and it may name a main file.
If the search answers with a path of that main file, the manifest was of use. In every other case the
answer is the one that is given over the same files without the manifest: what lies at the target,
beside it or in it is none of the manifest's paths, and a target that is a directory for its manifest
alone has no index file either.

Results:
* `normal_ne_manifest`: the manifest is neither at the target, nor beside it, nor an index file.
* `locate_cases`: two searches that differ in the manifest alone find the same, or a main file.
* `resolver_without_manifest`: all of it for the search as a resolver.
-/

namespace Relink

namespace Search

/-! ## The place of the manifest -/

section Place

variable {target : Path} (habs : target.isAbsolute = true) (hn : target.normal = target)

include habs hn

theorem names_manifestPath :
    (manifestPath target).names = target.names ++ [Utf8.encode Manifest.fileName.toList] :=
  ((Path.leadsDown_of_normal habs hn).join plain_manifest).names_eq

/-- The manifest does not lie beside its directory. -/
theorem names_append_ne_manifest {ext : String} (hdot : Extension.Dotted ext)
    (hslash : '/' ∉ ext.toList) : (target.append ext).names ≠ (manifestPath target).names := by
  obtain ⟨rest, hrest⟩ := List.head?_eq_some_iff.mp hdot
  rw [names_manifestPath habs hn]
  intro hnames
  rcases List.eq_nil_or_concat' target.names with hnil | ⟨init, n, hlast⟩
  · -- Below the root the extension is a name of its own, but one that starts with a dot.
    rw [hnil] at hnames
    rcases Path.fileName?_append_root habs hn hnil hslash with hempty | hname
    · rw [hempty] at hnames
      cases hnames
    · obtain ⟨cs, hcs⟩ := Path.fileName?_eq_some_iff.mp hname
      have habs' : (target.append ext).isAbsolute = true := Path.isAbsolute_append habs _
      rw [Path.names_of_fileName? habs' hcs] at hnames
      have hext := Utf8.encode_inj.mp (List.singleton_inj.mp (List.append_inj' hnames rfl).2)
      rw [hrest] at hext
      exact absurd (List.cons.inj hext).1 (by decide)
  · have hplain : Path.Plain (n ++ Utf8.encode ext.toList) := by
      rw [hrest] at hslash ⊢
      exact (Path.plain_of_mem_names (hlast ▸ List.mem_append_right init List.mem_cons_self)).append_dot
        fun hm => hslash (List.mem_cons_of_mem _ hm)
    have hdown := Path.leadsDown_of_normal habs hn
    rw [hlast] at hdown hnames
    rw [(hdown.append hn hplain).names_eq] at hnames
    simpa using congrArg List.length hnames

/-- The manifest is no index file. -/
theorem names_indexPath_ne_manifest {ext : String} (hslash : '/' ∉ ext.toList) :
    (indexPath target ext).names ≠ (manifestPath target).names := by
  have hindex := ((Path.leadsDown_of_normal habs hn).join (Path.plain_index hslash)).names_eq
  rw [names_manifestPath habs hn]
  intro hnames
  have hname := Utf8.encode_inj.mp
    (List.singleton_inj.mp (List.append_cancel_left (hindex.symm.trans hnames)))
  rw [String.toList_append] at hname
  exact absurd (List.cons.inj hname).1 (by decide)

/-- **The manifest is apart** from the target, the files beside it and its index files. -/
theorem normal_ne_manifest {extensions : List String}
    (hext : ∀ ext ∈ extensions, Extension.Dotted ext ∧ '/' ∉ ext.toList) {c : Path}
    (hc : Form extensions target c) : c.normal ≠ (manifestPath target).normal := by
  have habs' : (manifestPath target).isAbsolute = true := Path.isAbsolute_join habs _
  rw [Ne, Path.normal_eq_iff_names (hc.isAbsolute habs) habs']
  cases hc with
  | exact =>
    rw [names_manifestPath habs hn]
    exact fun e => absurd (congrArg List.length e) (by simp)
  | suffixed ext hmem => exact names_append_ne_manifest habs hn (hext ext hmem).1 (hext ext hmem).2
  | index ext hmem => exact names_indexPath_ne_manifest habs hn (hext ext hmem).2

end Place

/-! ## Searches that differ in the manifest alone -/

section Without

variable {s s' : Search} {target : Path} {extensions : List String}
  (hsame : ∀ c, Form extensions target c → s'.store.isFile c = s.store.isFile c)
  (hmanifest : s'.store.isFile (manifestPath target) = false)

include hsame

theorem find?_eq_of_form {paths : List Path} (hpaths : ∀ c ∈ paths, Form extensions target c) :
    paths.find? s'.store.isFile = paths.find? s.store.isFile :=
  List.find?_congr fun c hc => hsame c (hpaths c hc)

include hmanifest

/-- As a directory, the target stands for its main file or for what it stands for without manifest. -/
theorem asDirectory_cases :
    s.asDirectory target extensions = s'.asDirectory target extensions ∨
      ∃ main c, s.mainPath? target = some main ∧ Form extensions main c ∧
        s.asDirectory target extensions = some c := by
  have hindex := find?_eq_of_form hsame fun c => form_of_mem_indexCandidates
  rw [asDirectory_eq_find?, asDirectory_eq_find?, mainPath?_eq_none hmanifest, Option.toList_none,
    List.flatMap_nil, List.nil_append, List.find?_append, hindex]
  cases hmains : ((s.mainPath? target).toList.flatMap (mainCandidates · extensions)).find?
      s.store.isFile with
  | none => exact Or.inl Option.none_or
  | some c =>
    obtain ⟨main, hmain, hc⟩ := List.mem_flatMap.mp (List.mem_of_find?_eq_some hmains)
    exact Or.inr ⟨main, c, Option.mem_toList.mp hmain, form_of_mem_mainCandidates hc, rfl⟩

/-- **Without the manifest the same is found**, unless it was a main file. The target may be no
directory any more, if nothing comes of it as one. -/
theorem locate_cases
    (hdir : s'.store.isDir target = s.store.isDir target ∨
      s'.store.isDir target = false ∧ s'.asDirectory target extensions = none)
    (directoryOnly : Bool) :
    s.locate target directoryOnly extensions = s'.locate target directoryOnly extensions ∨
      ∃ main c, s.mainPath? target = some main ∧ Form extensions main c ∧
        s.locate target directoryOnly extensions = some c := by
  have hfile : s'.asFile target extensions = s.asFile target extensions := by
    rw [asFile_eq_find?, asFile_eq_find?]
    exact find?_eq_of_form hsame fun c => form_of_mem_fileCandidates
  -- Where the second search no longer enters the target, it would find nothing there.
  have hafter : (if s'.store.isDir target then s'.asDirectory target extensions else none) =
      if s.store.isDir target then s'.asDirectory target extensions else none := by
    rcases hdir with hdir | ⟨hnot, hnone⟩
    · rw [hdir]
    · rw [hnone, ite_self, ite_self]
  unfold locate
  rw [hfile, hafter]
  cases hbefore : if directoryOnly then none else s.asFile target extensions with
  | some c => exact Or.inl (by rw [Option.some_or, Option.some_or])
  | none =>
    rw [Option.none_or, Option.none_or]
    cases s.store.isDir target with
    | false => exact Or.inl rfl
    | true => exact asDirectory_cases hsame hmanifest

end Without

/-! ## Trees of files -/

/-- **A manifest is never worse than none.** For any tree, absolute directory and specifier, and
extensions that start with a dot and hold no slash, whatever text the manifest of the target holds: the
answer is a file of the main file that the manifest names, or it is the answer that is given over the
same files without the manifest. A fault stays the same fault. -/
theorem resolver_without_manifest (t : FileTree) (keep : Bool) {dir : Path}
    (hdir : dir.isAbsolute = true) (specifier : String) {extensions : List String}
    (hext : ∀ ext ∈ extensions, Extension.Dotted ext ∧ '/' ∉ ext.toList) :
    let target := (dir.join (Path.ofText specifier)).normal
    let manifest := target.join (Path.ofText "package.json")
    let answer (t : FileTree) := (⟨t.store, keep⟩ : Search).resolver dir specifier extensions
    answer t = answer (t.without manifest) ∨
      ∃ text main, t.contents? manifest = some text ∧ Manifest.Names text main ∧
        ∃ c, Form extensions (target.join (Path.ofText main)).normal c ∧ answer t = .ok c := by
  intro target manifest answer
  have habs : target.isAbsolute = true := Path.isAbsolute_normal_join hdir _
  have hn : target.normal = target := Path.normal_normal _
  let before : Search := ⟨t.store, keep⟩
  let after : Search := ⟨(t.without manifest).store, keep⟩
  have hsame : ∀ c, Form extensions target c → after.store.isFile c = before.store.isFile c :=
    fun c hc => congrArg Option.isSome
      (t.contents?_without_of_ne (normal_ne_manifest habs hn hext hc))
  have hisDir : after.store.isDir target = before.store.isDir target ∨
      after.store.isDir target = false ∧ after.asDirectory target extensions = none := by
    cases h : (t.without manifest).isDir target with
    | true => exact Or.inl (h.trans (FileTree.isDir_of_isDir_without h).symm)
    | false =>
      exact Or.inr ⟨h, asDirectory_eq_none_of_not_isDir h habs hn (fun ext hm => (hext ext hm).2) keep⟩
  cases hpath : Specifier.isPath specifier with
  | false =>
    left
    simp only [answer, resolver, hpath, Bool.not_false, if_true]
  | true =>
    rcases locate_cases hsame (t.isFile_without_self manifest) hisDir (meansDirectory specifier) with
      hlocate | ⟨main, c, hmain, hform, hlocate⟩
    · exact Or.inl (resolver_eq_of_locate_eq keep hlocate)
    · obtain ⟨text, name, -, htext, hnames, rfl⟩ := before.mainPath?_eq_some_iff.mp hmain
      refine Or.inr ⟨text, name, htext, hnames, c, hform, Resolver.eq_ok_of_toOption ?_⟩
      refine (before.toOption_resolver hpath dir extensions).trans ?_
      rw [show Search.target dir specifier = target from rfl, hlocate, Option.map_some,
        answerFor_store]

/-- The manifest makes its directory one and names a main file that is not there. The answer is the one
without the manifest: a fault where nothing else lies in the directory, and else its index file. -/
theorem resolver_without_manifest_of_lost :
    let manifest := Path.ofText "/p/lib/package.json"
    let index := Path.ofText "/p/lib/index.tsx"
    let tree := FileTree.empty.insert manifest "\x7b\"main\":\"./dist\"\x7d"
    let broken := (FileTree.empty.insert index "").insert manifest "\x7b not json"
    let dir := Path.ofText "/p/src"
    let answer (t : FileTree) :=
      (⟨t.store, true⟩ : Search).resolver dir "../lib" [".ts", ".tsx"]
    dir.isAbsolute = true ∧ (∀ ext ∈ [".ts", ".tsx"], Extension.Dotted ext ∧ '/' ∉ ext.toList) ∧
      tree.isDir (Path.ofText "/p/lib") = true ∧
      (tree.without manifest).isDir (Path.ofText "/p/lib") = false ∧
      answer tree = answer (tree.without manifest) ∧ (answer tree).toOption = none ∧
      answer broken = answer (broken.without manifest) ∧ answer broken = .ok index := by
  intro manifest index tree broken dir answer
  have hdir : dir.isAbsolute = true := by decide
  have hext : ∀ ext ∈ [".ts", ".tsx"], Extension.Dotted ext ∧ '/' ∉ ext.toList := by decide
  have hmanifest : (dir.join (Path.ofText "../lib")).normal.join (Path.ofText "package.json") =
      manifest := by decide +kernel
  have hlost : (answer tree).toOption = none := by decide +kernel
  have hfound : answer broken = .ok index := Resolver.eq_ok_of_toOption (by decide +kernel)
  have htree := resolver_without_manifest tree true hdir "../lib" hext
  have hbroken := resolver_without_manifest broken true hdir "../lib" hext
  dsimp only at htree hbroken
  rw [hmanifest] at htree hbroken
  refine ⟨hdir, hext, by decide +kernel, by decide +kernel, htree.resolve_right ?_, hlost,
    hbroken.resolve_right ?_, hfound⟩
  · rintro ⟨text, main, -, -, c, -, hc⟩
    rw [show answer tree = .ok c from hc] at hlost
    cases hlost
  · rintro ⟨text, main, htext, hnames, -⟩
    have hread : broken.contents? manifest = some "\x7b not json" := by decide +kernel
    cases hread.symm.trans htext
    have hnone : Manifest.main? "\x7b not json" = none := by decide +kernel
    rw [Manifest.main?_eq_some_iff.mpr hnames] at hnone
    cases hnone

end Search

end Relink
