import Relink.Files.Tree
import Relink.Proofs.Resolve.Candidates

/-!
# The search is a first match

For any file store, the answer of a search (`resolve` of `FsResolver`) is the first path of a list that
is a file. The list is written out here from the specifier, the extensions, one question about a
directory and the manifest: the four loops of the search, its rule for directories and its way round
over the manifest leave no other trace.

Results:
* `Manifest.main?_eq_some_iff`: what it is for a manifest to name a main file.
* `mainPath?_eq_some_iff`: when a directory has a main file, and where.
* `isAbsolute_of_resolver_eq_ok`: answers to an absolute directory are absolute.
* `resolver_eq_first_candidate`: all of it for the search as a resolver.
-/

namespace Relink

/-! ## Manifests -/

/-- The text is a JSON object whose last member `main` is this text, and the text is not empty. -/
def Manifest.Names (contents main : String) : Prop :=
  ∃ members, Json.ofText maxDepth contents = .ok (.object members) ∧
    (Json.object members).member? "main" = some (.string main) ∧ main ≠ ""

theorem Manifest.mainOf_eq_some_iff {v : Json} {main : String} :
    mainOf v = some main ↔
      ∃ members, v = .object members ∧ v.member? "main" = some (.string main) ∧ main ≠ "" := by
  constructor
  · intro h
    unfold mainOf at h
    split at h
    · next text hmember =>
      split at h
      · cases h
      · next hne =>
        obtain rfl := Option.some.inj h
        cases v with
        | object members => exact ⟨members, rfl, hmember, hne⟩
        | _ => cases hmember
    · cases h
  · rintro ⟨members, rfl, hmember, hne⟩
    unfold mainOf
    rw [hmember]
    exact if_neg hne

/-- A manifest names a main file exactly when it is an object with a text for it. -/
theorem Manifest.main?_eq_some_iff {contents main : String} :
    main? contents = some main ↔ Names contents main := by
  unfold main? Names
  cases h : Json.ofText maxDepth contents with
  | error fault => simp
  | ok v =>
    refine mainOf_eq_some_iff.trans (exists_congr fun members => ?_)
    constructor
    · rintro ⟨rfl, hmember⟩
      exact ⟨rfl, hmember⟩
    · rintro ⟨hv, hmember⟩
      cases hv
      exact ⟨rfl, hmember⟩

namespace Search

variable (s : Search)

/-- Where the main file of a directory is looked for, if its manifest is a file that names one. -/
theorem mainPath?_eq_some_iff {dir main : Path} :
    s.mainPath? dir = some main ↔
      ∃ contents name, s.store.isFile (dir.join (Path.ofText "package.json")) = true ∧
        s.store.read? (dir.join (Path.ofText "package.json")) = some contents ∧
        Manifest.Names contents name ∧ main = (dir.join (Path.ofText name)).normal := by
  unfold mainPath? manifestPath Manifest.fileName
  constructor
  · intro h
    split at h
    · next hfile =>
      obtain ⟨name, hname, rfl⟩ := Option.map_eq_some_iff.mp h
      obtain ⟨contents, hread, hmain⟩ := Option.bind_eq_some_iff.mp hname
      exact ⟨contents, name, hfile, hread, Manifest.main?_eq_some_iff.mp hmain, rfl⟩
    · cases h
  · rintro ⟨contents, name, hfile, hread, hnames, rfl⟩
    rw [if_pos hfile, hread, Option.bind_some, Manifest.main?_eq_some_iff.mpr hnames]
    rfl

/-- The specifiers that can only mean a directory. -/
theorem meansDirectory_iff {specifier : String} :
    meansDirectory specifier = true ↔
      specifier = "." ∨ specifier = ".." ∨ specifier.toList.getLast? = some '/' := by
  unfold meansDirectory
  simp [or_assoc]

variable {s}

/-- With links kept, answers to an absolute directory are absolute. -/
theorem isAbsolute_of_resolver_eq_ok (hkeep : s.keepLinks = true) {dir p : Path}
    (hd : dir.isAbsolute = true) {specifier : String} {extensions : List String}
    (h : s.resolver dir specifier extensions = .ok p) : p.isAbsolute = true := by
  obtain ⟨-, base, hbase, hform⟩ := exists_of_resolver_eq_ok hkeep h
  exact hform.isAbsolute (isAbsolute_of_base hd hbase)

/-- **The search is a first match.** For any file store, kept links or not, any directory, specifier
and extensions: a specifier that is no path is refused; for any other the candidates are the target
and the target with each extension, unless the specifier can only mean a directory, and then, if the
target is a directory, those of its main file, the index files below that, and its own index files.
The first that is a file is the answer, with its links followed if they are not kept and can be. The
main file is the one that the manifest of the target names. -/
theorem resolver_eq_first_candidate (s : Search) (dir : Path) (specifier : String)
    (extensions : List String) :
    let target := (dir.join (Path.ofText specifier)).normal
    let files (p : Path) := p :: extensions.map p.append
    let indexes (d : Path) := extensions.map fun ext => d.join (Path.ofText ("index" ++ ext))
    let candidates :=
      (if specifier = "." ∨ specifier = ".." ∨ specifier.toList.getLast? = some '/' then []
        else files target) ++
      if s.store.isDir target then
        (match s.mainPath? target with
          | some main => files main ++ indexes main
          | none => []) ++ indexes target
      else []
    (s.resolver dir specifier extensions =
      if Specifier.isPath specifier then
        match candidates.find? s.store.isFile with
        | some found =>
          .ok (if s.keepLinks then found else (s.store.canonical? found).getD found)
        | none => .error (.notFound specifier dir)
      else .error (.notPath specifier)) ∧
    (∀ main, s.mainPath? target = some main ↔
      ∃ contents name, s.store.isFile (target.join (Path.ofText "package.json")) = true ∧
        s.store.read? (target.join (Path.ofText "package.json")) = some contents ∧
        Manifest.Names contents name ∧ main = (target.join (Path.ofText name)).normal) ∧
    ∀ p, dir.isAbsolute = true → s.keepLinks = true →
      s.resolver dir specifier extensions = .ok p → p.isAbsolute = true := by
  intro target files indexes candidates
  have hcandidates :
      s.candidates target (meansDirectory specifier) extensions = candidates := by
    have hmain : (s.mainPath? target).toList.flatMap (mainCandidates · extensions) =
        match s.mainPath? target with
        | some main => files main ++ indexes main
        | none => [] := by
      cases s.mainPath? target with
      | none => rfl
      | some main => exact List.append_nil _
    unfold Search.candidates
    simp only [meansDirectory_iff, hmain]
    rfl
  refine ⟨?_, fun main => s.mainPath?_eq_some_iff,
    fun p hd hkeep h => isAbsolute_of_resolver_eq_ok hkeep hd h⟩
  unfold resolver
  cases Specifier.isPath specifier with
  | false => rfl
  | true =>
    rw [show Search.target dir specifier = target from rfl, locate_eq_find?, hcandidates]
    cases candidates.find? s.store.isFile <;> rfl

/-- The manifest names a directory, so the answer is the index file there and not the one beside the
manifest; it is absolute, since the directory is. -/
theorem resolver_eq_first_candidate_of_main :
    let found := Path.ofText "/p/lib/out/index.ts"
    let manifest := "\x7b\"main\":\"./out\"\x7d"
    let tree := ((FileTree.empty.insert (Path.ofText "/p/lib/index.ts") "").insert found "").insert
      (Path.ofText "/p/lib/package.json") manifest
    let search : Search := ⟨tree.store, true⟩
    let dir := Path.ofText "/p/src"
    dir.isAbsolute = true ∧ search.keepLinks = true ∧ Manifest.Names manifest "./out" ∧
      search.mainPath? (dir.join (Path.ofText "../lib")).normal = some (Path.ofText "/p/lib/out") ∧
      search.resolver dir "../lib" [".ts"] = .ok found ∧ found.isAbsolute = true := by
  intro found manifest tree search dir
  obtain ⟨-, hmain, habs⟩ := resolver_eq_first_candidate search dir "../lib" [".ts"]
  have hd : dir.isAbsolute = true := by decide
  have hnames : Manifest.Names manifest "./out" :=
    Manifest.main?_eq_some_iff.mp (by decide +kernel)
  have hfound : search.resolver dir "../lib" [".ts"] = .ok found :=
    Resolver.eq_ok_of_toOption (by decide +kernel)
  have hpath := (hmain (Path.ofText "/p/lib/out")).mpr
    ⟨manifest, "./out", by decide +kernel, by decide +kernel, hnames, by decide +kernel⟩
  exact ⟨hd, rfl, hnames, hpath, hfound, habs found hd rfl hfound⟩

end Search

end Relink
