import Relink.Files.Tree
import Relink.Proofs.Path.Route
import Relink.Proofs.Specifier
import Relink.Resolve.Search

/-!
# The search looks through its candidates

The search for a module's file (`FsResolver`) is written as it asks: a file, an extension, a manifest,
an index. `Search.candidates` lists the paths it may look at beforehand. This file says that the search
answers with the first candidate that is a file, and what a candidate can look like.

Results:
* `locate_eq_find?`: the search is the first match among its candidates.
* `exists_of_mem_candidates`: a candidate is a base path, a base path with an extension, or an index
  file, and a base path is the target or the path of a main file.
* `target_congr`: what is searched for depends on where the directory leads.
-/

namespace Relink

/-- An answer is a path when that is what is left of it without its fault. -/
theorem Resolver.eq_ok_of_toOption {answer : Except ResolveFault Path} {p : Path}
    (h : answer.toOption = some p) : answer = .ok p := by
  cases answer with
  | error _ => cases h
  | ok q => cases h; rfl

namespace Search

variable (s : Search)

/-! ## First match -/

theorem findSome?_ite_eq_find? {α β : Type} (f : α → β) (p : β → Bool) (xs : List α) :
    (xs.findSome? fun x => if p (f x) then some (f x) else none) = (xs.map f).find? p := by
  rw [List.find?_eq_findSome?_guard, List.findSome?_map]
  rfl

theorem asFile_eq_find? (path : Path) (extensions : List String) :
    s.asFile path extensions = (fileCandidates path extensions).find? s.store.isFile := by
  unfold asFile fileCandidates
  rw [List.find?_cons, findSome?_ite_eq_find? path.append]
  cases s.store.isFile path <;> rfl

theorem asIndex_eq_find? (dir : Path) (extensions : List String) :
    s.asIndex dir extensions = (indexCandidates dir extensions).find? s.store.isFile :=
  findSome?_ite_eq_find? (indexPath dir) s.store.isFile extensions

theorem asDirectory_eq_find? (dir : Path) (extensions : List String) :
    s.asDirectory dir extensions =
      ((s.mainPath? dir).toList.flatMap (mainCandidates · extensions) ++
        indexCandidates dir extensions).find? s.store.isFile := by
  unfold asDirectory
  rw [List.find?_append, asIndex_eq_find?]
  cases s.mainPath? dir with
  | none => rfl
  | some main =>
    simp only [Option.bind_some, Option.toList_some, List.flatMap_cons, List.flatMap_nil,
      List.append_nil, mainCandidates, List.find?_append]
    rw [asFile_eq_find?, asIndex_eq_find?]

/-- **The search is the first match among its candidates.** -/
theorem locate_eq_find? (target : Path) (directoryOnly : Bool) (extensions : List String) :
    s.locate target directoryOnly extensions =
      (s.candidates target directoryOnly extensions).find? s.store.isFile := by
  unfold locate candidates
  rw [List.find?_append, asFile_eq_find?, asDirectory_eq_find?]
  cases directoryOnly <;> cases s.store.isDir target <;> rfl

/-- A file at the target itself comes before everything else. -/
theorem locate_of_isFile {target : Path} (h : s.store.isFile target = true)
    (extensions : List String) : s.locate target false extensions = some target := by
  unfold locate asFile
  simp [h]

/-- The name of a manifest is a name. -/
theorem plain_manifest : Path.Plain (Utf8.encode Manifest.fileName.toList) := by
  refine Path.plain_encode ?_ ?_ ?_ ?_ <;> decide

/-! ## The shape of a candidate -/

/-- A path from which candidates are made: the target or the path of its main file. -/
def Base (target base : Path) : Prop :=
  base = target ∨ s.mainPath? target = some base

/-- How a candidate is made from its base. -/
inductive Form (extensions : List String) (base : Path) : Path → Prop
  | exact : Form extensions base base
  | suffixed (ext : String) (h : ext ∈ extensions) : Form extensions base (base.append ext)
  | index (ext : String) (h : ext ∈ extensions) : Form extensions base (indexPath base ext)

variable {s}

theorem form_of_mem_fileCandidates {base c : Path} {extensions : List String}
    (h : c ∈ fileCandidates base extensions) : Form extensions base c := by
  rcases List.mem_cons.mp h with rfl | h
  · exact .exact
  · obtain ⟨ext, hext, rfl⟩ := List.mem_map.mp h
    exact .suffixed ext hext

theorem form_of_mem_indexCandidates {base c : Path} {extensions : List String}
    (h : c ∈ indexCandidates base extensions) : Form extensions base c := by
  obtain ⟨ext, hext, rfl⟩ := List.mem_map.mp h
  exact .index ext hext

/-- A path below a main file's is made from it in one of three ways. -/
theorem form_of_mem_mainCandidates {main c : Path} {extensions : List String}
    (h : c ∈ mainCandidates main extensions) : Form extensions main c :=
  (List.mem_append.mp h).elim form_of_mem_fileCandidates form_of_mem_indexCandidates

/-- A candidate is made from a base in one of three ways. -/
theorem exists_of_mem_candidates {target c : Path} {directoryOnly : Bool}
    {extensions : List String} (h : c ∈ s.candidates target directoryOnly extensions) :
    ∃ base, s.Base target base ∧ Form extensions base c := by
  unfold candidates at h
  rcases List.mem_append.mp h with h | h
  · split at h
    · exact absurd h List.not_mem_nil
    · exact ⟨target, Or.inl rfl, form_of_mem_fileCandidates h⟩
  · split at h
    · rcases List.mem_append.mp h with h | h
      · obtain ⟨main, hmain, h⟩ := List.mem_flatMap.mp h
        exact ⟨main, Or.inr (Option.mem_toList.mp hmain), form_of_mem_mainCandidates h⟩
      · exact ⟨target, Or.inl rfl, form_of_mem_indexCandidates h⟩
    · exact absurd h List.not_mem_nil

theorem Form.isAbsolute {extensions : List String} {base c : Path} (h : Form extensions base c)
    (hbase : base.isAbsolute = true) : c.isAbsolute = true := by
  cases h with
  | exact => exact hbase
  | suffixed ext _ => exact Path.isAbsolute_append hbase _
  | index ext _ => exact Path.isAbsolute_join hbase _

/-! ## Answers -/

/-- The answer to a specifier that is a path is what its target stands for. -/
theorem toOption_resolver (s : Search) {specifier : String}
    (h : Specifier.isPath specifier = true) (dir : Path) (extensions : List String) :
    (s.resolver dir specifier extensions).toOption =
      (s.locate (target dir specifier) (meansDirectory specifier) extensions).map s.answerFor := by
  unfold resolver
  rw [h, Bool.not_true, if_neg Bool.false_ne_true]
  cases s.locate (target dir specifier) (meansDirectory specifier) extensions <;> rfl

/-- With links kept, an answer is a file and a candidate. -/
theorem exists_of_resolver_eq_ok (hkeep : s.keepLinks = true) {dir p : Path} {specifier : String}
    {extensions : List String} (h : s.resolver dir specifier extensions = .ok p) :
    s.store.isFile p = true ∧
      ∃ base, s.Base (target dir specifier) base ∧ Form extensions base p := by
  unfold resolver at h
  split at h
  · cases h
  · split at h
    · next found hfound =>
      have hp : s.answerFor found = found := by unfold answerFor; rw [if_pos hkeep]
      cases h
      rw [hp]
      rw [locate_eq_find?] at hfound
      exact ⟨List.find?_some hfound,
        exists_of_mem_candidates (List.mem_of_find?_eq_some hfound)⟩
    · cases h

/-! ## Trees of files -/

/-- A tree has no links to follow. -/
theorem answerFor_store (t : FileTree) (keep : Bool) (p : Path) :
    (⟨t.store, keep⟩ : Search).answerFor p = p := by
  unfold answerFor
  split <;> rfl

/-- In trees of files, what is located is the answer. -/
theorem resolver_eq_of_locate_eq {t t' : FileTree} (keep : Bool) {dir : Path} {specifier : String}
    {extensions : List String}
    (h : (⟨t'.store, keep⟩ : Search).locate (target dir specifier) (meansDirectory specifier)
        extensions =
      (⟨t.store, keep⟩ : Search).locate (target dir specifier) (meansDirectory specifier)
        extensions) :
    (⟨t'.store, keep⟩ : Search).resolver dir specifier extensions =
      (⟨t.store, keep⟩ : Search).resolver dir specifier extensions := by
  unfold resolver
  rw [h]
  simp only [answerFor_store]

/-! ## Bases -/

theorem mainPath?_eq_some {dir main : Path} (h : s.mainPath? dir = some main) :
    ∃ text : String, main = (dir.join (Path.ofText text)).normal := by
  unfold mainPath? at h
  split at h
  · obtain ⟨text, -, rfl⟩ := Option.map_eq_some_iff.mp h
    exact ⟨text, rfl⟩
  · cases h

/-- Without manifest there is no main file. -/
theorem mainPath?_eq_none {dir : Path} (h : s.store.isFile (manifestPath dir) = false) :
    s.mainPath? dir = none := by
  unfold mainPath?
  rw [h, if_neg Bool.false_ne_true]

/-- A property of normal paths that reading a text from a directory keeps holds of every base. -/
theorem base_induction {P : Path → Prop} {dir : Path} (hdir : P dir)
    (hstep : ∀ (d : Path) (text : String), P d → P (d.join (Path.ofText text)).normal)
    {specifier : String} {base : Path} (h : s.Base (target dir specifier) base) : P base := by
  have htarget : P (target dir specifier) := hstep dir specifier hdir
  rcases h with rfl | h
  · exact htarget
  · obtain ⟨text, rfl⟩ := mainPath?_eq_some h
    exact hstep _ text htarget

theorem base_eq_normal {dir base : Path} {specifier : String}
    (h : s.Base (target dir specifier) base) : base.normal = base := by
  rcases h with rfl | h
  · exact Path.normal_normal _
  · obtain ⟨text, rfl⟩ := mainPath?_eq_some h
    exact Path.normal_normal _

theorem isAbsolute_of_base {dir base : Path} (hdir : dir.isAbsolute = true) {specifier : String}
    (h : s.Base (target dir specifier) base) : base.isAbsolute = true :=
  base_induction (P := fun p => p.isAbsolute = true) hdir
    (fun _ _ hd => Path.isAbsolute_normal_join hd _) h

/-- The target depends on where the directory leads, not on its spelling. -/
theorem target_congr {dir dir' : Path} (h : dir.route = dir'.route) (specifier : String) :
    target dir specifier = target dir' specifier :=
  Path.normal_eq_iff.mpr (Path.route_join_congr h _)

/-- A relative specifier that ends in a name need not mean a directory. -/
theorem meansDirectory_eq_false {specifier : String} {before last : List Char}
    (h : specifier.toList = before ++ last) (hne : last ≠ []) (hslash : '/' ∉ last)
    (hrelative : Specifier.isRelative specifier = true) : meansDirectory specifier = false := by
  obtain ⟨-, hdot, hdotDot⟩ := Specifier.exists_of_isRelative hrelative
  have hlast : specifier.toList.getLast? ≠ some '/' := by
    rw [h, List.getLast?_append, List.getLast?_eq_some_getLast hne, Option.some_or]
    exact fun e => hslash (Option.some.inj e ▸ List.getLast_mem hne)
  unfold meansDirectory
  simp [hdot, hdotDot, hlast]

end Search

end Relink
