import Relink.Extension.Table
import Relink.Proofs.Resolve.Candidates

/-!
# A slash after a specifier

A specifier that ends in a slash can only mean a directory, and so can `.` and `..` alone. A longer one
that ends in the segment `.` or `..` leads to a directory too, but the search (`resolve` of
`FsResolver`) does not take it so: it looks at the target and beside it for a file first. So the slash
makes a difference, and the only one, where there is such a file.

Results:
* `target_append_slash`: a slash leads nowhere else.
* `resolver_eq_or_slash`: without the slash, a file at the target or beside it comes first.
* `resolver_of_dots`: the same for a specifier that ends in dots.
* `resolver_ne_of_beside`: an index file that is found only with the slash.
-/

namespace Relink

/-- The last segment of the specifier is `.` or `..`. -/
def Specifier.EndsInDots (specifier : String) : Prop :=
  (Path.segments (Path.ofText specifier).bytes).getLast? = some Path.dot ∨
    (Path.segments (Path.ofText specifier).bytes).getLast? = some Path.dotDot

instance (specifier : String) : Decidable (Specifier.EndsInDots specifier) :=
  inferInstanceAs (Decidable (_ ∨ _))

theorem Path.bytes_ofText_append_slash (text : String) :
    (Path.ofText (text ++ "/")).bytes = (Path.ofText text).bytes ++ [Path.slash] := by
  unfold Path.ofText
  rw [String.toList_append, Utf8.encode_append]
  rfl

/-- A specifier that ends in dots does not end in a slash. -/
theorem Specifier.EndsInDots.getLast?_ne {specifier : String} (h : EndsInDots specifier) :
    specifier.toList.getLast? ≠ some '/' := by
  intro hslash
  obtain ⟨init, hinit⟩ := List.getLast?_eq_some_iff.mp hslash
  have htext : specifier = String.ofList init ++ "/" := by
    rw [← String.toList_inj, String.toList_append, String.toList_ofList, hinit]
    rfl
  -- Behind a slash the last segment is empty.
  have hlast : (Path.segments (Path.ofText specifier).bytes).getLast? = some [] := by
    rw [htext, Path.bytes_ofText_append_slash, Path.segments_append_slash]
    exact List.getLast?_concat
  unfold EndsInDots at h
  rw [hlast] at h
  revert h
  decide

theorem Specifier.isRelative_append {specifier : String} (h : isRelative specifier = true)
    (more : String) : isRelative (specifier ++ more) = true := by
  have hstart {start : String} (hs : startsWith specifier start = true) :
      startsWith (specifier ++ more) start = true := by
    unfold startsWith at hs ⊢
    rw [List.isPrefixOf_iff_prefix] at hs ⊢
    rw [String.toList_append]
    exact hs.trans (List.prefix_append _ _)
  unfold isRelative at h ⊢
  rw [Bool.or_eq_true] at h ⊢
  exact h.imp hstart hstart

theorem Specifier.isAbsolute_of_isRelative {specifier : String} (h : isRelative specifier = true) :
    (Path.ofText specifier).isAbsolute = false := by
  obtain ⟨⟨rest, hrest⟩, -⟩ := exists_of_isRelative h
  unfold Path.ofText
  rw [hrest]
  rfl

namespace Search

variable (s : Search)

/-- What may be a file stands for a file, and else for what it stands for as a directory. -/
theorem locate_eq_or (target : Path) (extensions : List String) :
    s.locate target false extensions =
      (s.asFile target extensions).or (s.locate target true extensions) := rfl

/-- A slash behind a relative specifier leads nowhere else. -/
theorem target_append_slash {specifier : String} (h : Specifier.isRelative specifier = true)
    (dir : Path) : target dir (specifier ++ "/") = target dir specifier := by
  have hslash := Specifier.isRelative_append h "/"
  refine Path.normal_eq_iff.mpr ?_
  rw [Path.route_join dir (Specifier.isAbsolute_of_isRelative hslash),
    Path.route_join dir (Specifier.isAbsolute_of_isRelative h), Path.bytes_ofText_append_slash,
    Path.steps_append_slash, Path.steps_nil, List.append_nil]

/-- With a slash behind it, a specifier can only mean a directory. -/
theorem meansDirectory_append_slash (specifier : String) :
    meansDirectory (specifier ++ "/") = true := by
  have hlast : (specifier ++ "/").toList.getLast? = some '/' := by
    rw [String.toList_append]
    exact List.getLast?_concat
  unfold meansDirectory
  rw [hlast, beq_self_eq_true, Bool.or_true]

/-- With a slash behind it, a relative specifier stands for what its target is as a directory. -/
theorem toOption_resolver_append_slash {specifier : String}
    (h : Specifier.isRelative specifier = true) (dir : Path) (extensions : List String) :
    (s.resolver dir (specifier ++ "/") extensions).toOption =
      (s.locate (target dir specifier) true extensions).map s.answerFor := by
  rw [s.toOption_resolver (Specifier.isPath_of_isRelative (Specifier.isRelative_append h "/")),
    target_append_slash h, meansDirectory_append_slash]

/-- **Without the slash, a file at the target or beside it comes first**, and what the specifier means
with the slash comes after. -/
theorem resolver_eq_or_slash {specifier : String} (h : Specifier.isRelative specifier = true)
    (hlast : specifier.toList.getLast? ≠ some '/') (dir : Path) (extensions : List String) :
    (s.resolver dir specifier extensions).toOption =
      ((s.asFile (target dir specifier) extensions).map s.answerFor).or
        (s.resolver dir (specifier ++ "/") extensions).toOption := by
  obtain ⟨-, hdot, hdotDot⟩ := Specifier.exists_of_isRelative h
  have hmeans : meansDirectory specifier = false := by
    unfold meansDirectory
    simp [hdot, hdotDot, hlast]
  rw [s.toOption_resolver (Specifier.isPath_of_isRelative h), s.toOption_resolver_append_slash h,
    hmeans, locate_eq_or, Option.map_or]

/-- A directory without main file stands for one of its index files, if for any file. -/
theorem exists_of_locate_directory {target found : Path} {extensions : List String}
    (hmain : s.mainPath? target = none) (h : s.locate target true extensions = some found) :
    ∃ ext ∈ extensions, found = indexPath target ext := by
  rw [locate_eq_find?] at h
  have hmem := List.mem_of_find?_eq_some h
  unfold candidates at hmem
  rw [hmain, if_pos rfl, List.nil_append] at hmem
  split at hmem
  · obtain ⟨ext, hext, hfound⟩ := List.mem_map.mp hmem
    exact ⟨ext, hext, hfound.symm⟩
  · cases hmem

/-- **A specifier that ends in dots, with and without a slash behind it.** For any file store, kept
links or not, any directory and extensions, and a relative specifier whose last segment is `.` or `..`:
if neither the target nor the target with an extension is a file, the slash makes no difference.
Otherwise the first of these files is the answer without the slash. With the slash none of them is asked
for: unless the manifest of the target names a main file, the answer is an index file there. -/
theorem resolver_of_dots (dir : Path) {specifier : String}
    (hrelative : Specifier.isRelative specifier = true)
    (hdots : Specifier.EndsInDots specifier) (extensions : List String) :
    let target := (dir.join (Path.ofText specifier)).normal
    let files := target :: extensions.map target.append
    let answer (specifier : String) := (s.resolver dir specifier extensions).toOption
    ((∀ c ∈ files, s.store.isFile c = false) → answer specifier = answer (specifier ++ "/")) ∧
      (∀ found, files.find? s.store.isFile = some found →
        answer specifier = some (s.answerFor found)) ∧
      (s.mainPath? target = none → ∀ p, answer (specifier ++ "/") = some p →
        ∃ ext ∈ extensions, p = s.answerFor (target.join (Path.ofText ("index" ++ ext)))) := by
  intro target files answer
  have hanswer : answer specifier =
      ((files.find? s.store.isFile).map s.answerFor).or (answer (specifier ++ "/")) := by
    have h := s.resolver_eq_or_slash hrelative hdots.getLast?_ne dir extensions
    rwa [asFile_eq_find?] at h
  refine ⟨fun hnone => ?_, fun found hfound => ?_, fun hmain p hp => ?_⟩
  · have hfind : files.find? s.store.isFile = none :=
      List.find?_eq_none.mpr fun c hc => by rw [hnone c hc]; exact Bool.false_ne_true
    rw [hanswer, hfind, Option.map_none, Option.none_or]
  · rw [hanswer, hfound, Option.map_some, Option.some_or]
  · have hslash := s.toOption_resolver_append_slash hrelative dir extensions
    obtain ⟨found, hfound, rfl⟩ := Option.map_eq_some_iff.mp (hslash.symm.trans hp)
    obtain ⟨ext, hext, rfl⟩ := s.exists_of_locate_directory hmain hfound
    exact ⟨ext, hext, rfl⟩

/-- From two levels below, the directory is found by its index file, until a file beside it has its
name. -/
theorem resolver_of_dots_of_index :
    let index := Path.ofText "/p/index.ts"
    let beside := Path.ofText "/p.tsx"
    let tree := FileTree.empty.insert index ""
    let search : Search := ⟨tree.store, true⟩
    let search' : Search := ⟨(tree.insert beside "").store, true⟩
    let dir := Path.ofText "/p/src/lib"
    Specifier.isRelative "./../.." = true ∧ Specifier.EndsInDots "./../.." ∧
      (search.resolver dir "./../.." [".ts", ".tsx"]).toOption = some index ∧
      (search.resolver dir ("./../.." ++ "/") [".ts", ".tsx"]).toOption = some index ∧
      (∃ ext ∈ [".ts", ".tsx"], index =
        search.answerFor ((Path.ofText "/p").join (Path.ofText ("index" ++ ext)))) ∧
      (search'.resolver dir "./../.." [".ts", ".tsx"]).toOption = some beside := by
  intro index beside tree search search' dir
  have hrelative : Specifier.isRelative "./../.." = true := by decide
  have hdots : Specifier.EndsInDots "./../.." := by decide +kernel
  have hslash : (search.resolver dir ("./../.." ++ "/") [".ts", ".tsx"]).toOption = some index := by
    decide +kernel
  have hp : (dir.join (Path.ofText "./../..")).normal = Path.ofText "/p" := by decide +kernel
  obtain ⟨hsame, -, hindex⟩ := search.resolver_of_dots dir hrelative hdots [".ts", ".tsx"]
  obtain ⟨-, hfirst, -⟩ := search'.resolver_of_dots dir hrelative hdots [".ts", ".tsx"]
  rw [hp] at hindex
  exact ⟨hrelative, hdots, (hsame (by decide +kernel)).trans hslash, hslash,
    hindex (by decide +kernel) index hslash, hfirst beside (by decide +kernel)⟩

/-- **The slash can make a difference**: without it, a file beside the directory is the answer to a
specifier that can only name the directory, and its index file is not found. -/
theorem resolver_ne_of_beside :
    let beside := Path.ofText "/p.ts"
    let index := Path.ofText "/p/index.ts"
    let tree := (FileTree.empty.insert beside "").insert index ""
    let resolve := (Search.mk tree.store true).resolver
    let dir := Path.ofText "/p/src"
    let sources := Extension.Table.typeScript.sources
    dir.isAbsolute = true ∧ Specifier.isRelative "./.." = true ∧ Specifier.EndsInDots "./.." ∧
      resolve dir "./.." sources = .ok beside ∧ resolve dir ("./.." ++ "/") sources = .ok index ∧
      beside ≠ index := by
  intro beside index tree resolve dir sources
  exact ⟨by decide, by decide, by decide +kernel, Resolver.eq_ok_of_toOption (by decide +kernel),
    Resolver.eq_ok_of_toOption (by decide +kernel), by decide +kernel⟩

end Search

end Relink
