import Relink.Proofs.Extension.Output
import Relink.Proofs.Resolve.FirstCandidate
import Relink.Proofs.Session.Lookup

/-!
# How a relinked specifier ends

The output extension is put on a path (`map_output_path`), and the specifier is the way to that path
(`relativize`). So a specifier ends in the extension as long as its last segment is the name of the
output file: not where the way only leads up, because the output lies where the importing directory is
or above it, and not where the name with its output extension is `..` and leads up itself.

Results:
* `suffix_relativeSpecifier`: the way to an output file ends in the new name.
* `relink_ends_in_output`: a file with a source extension is relinked to a specifier with the output
  extension of the first rule that fits, and to dots where the way only leads up.
* `losesExtension_of_dots`: three inputs at which the extension is lost.
-/

namespace Relink

namespace Extension.Table

/-- **The specifier of an output file ends in the new name**, unless that is made of dots or the file
lies at the directory or above it. -/
theorem suffix_relativeSpecifier {t : Table} (ht : t.Slashless) {dir file : Path}
    (hd : dir.isAbsolute = true) (hf : file.isAbsolute = true) {name out : List Char}
    (hname : file.fileName? = some (Utf8.encode name)) (hout : t.outputName? name = some out)
    (hdots : out ≠ ['.', '.'])
    (hbelow : dir.normal.startsWith (t.outputPath file).normal = false) :
    out <:+ (relativeSpecifier dir (t.outputPath file)).toList := by
  have hdown : Path.down dir (t.outputPath file) ≠ [] := fun e => by
    rw [(Path.down_eq_nil_iff hd (t.isAbsolute_outputPath hf)).mp e] at hbelow
    cases hbelow
  obtain ⟨init, n, hlast⟩ := (List.eq_nil_or_concat' _).resolve_left hdown
  obtain ⟨before, hu, -⟩ := exists_relativeSpecifier_outputPath ht hd hf hname hout hdots hlast
  rw [hu]
  exact List.suffix_append before out

end Extension.Table

/-- Where the file lies at the directory or above it, its specifier is made of dots. -/
theorem Path.not_entersName_of_startsWith {dir file : Path} (hd : dir.isAbsolute = true)
    (hf : file.isAbsolute = true) (h : dir.normal.startsWith file.normal = true) :
    ¬ Specifier.EntersName (relativeSpecifier dir file) := by
  intro henters
  obtain ⟨init, n, hdown⟩ := exists_down_of_entersName hd hf henters
  rw [(down_eq_nil_iff hd hf).mpr h] at hdown
  simp at hdown

namespace Session

/-- **A relinked specifier ends in the output extension.** For any table without slashes, any tree of
files, any absolute directory and any specifier: if the search finds a file whose name ends in a source
extension, the specifier is relinked. It ends in the output extension of the first rule whose source
ends the name, unless the new name is `..` or the output path leads to the directory itself or above
it; and where it does that, no segment of the specifier is more than dots. -/
theorem relink_ends_in_output (options : Options) (ht : options.table.Slashless) (tree : FileTree)
    {dir p : Path} (hd : dir.isAbsolute = true) {specifier source : String} {name : List Char}
    (hp : (Search.mk tree.store true).resolver dir specifier options.table.sources = .ok p)
    (hname : p.fileName? = some (Utf8.encode name)) (hsource : source ∈ options.table.sources)
    (hends : source.toList <:+ name) :
    let output := options.table.outputPath p
    ∃ rule text, options.table.ruleFor? name = some rule ∧
      ((new options).relink (Search.mk tree.store true).resolver dir specifier).1 =
        .resolved text ∧
      (options.table.outputName? name ≠ some ['.', '.'] →
        dir.normal.startsWith output.normal = false → rule.2.toList <:+ text.toList) ∧
      (dir.normal.startsWith output.normal = true → ¬ Specifier.EntersName text) := by
  intro output
  have habs : p.isAbsolute = true := Search.isAbsolute_of_resolver_eq_ok rfl hd hp
  cases hrule : options.table.ruleFor? name with
  | none =>
    have hnone := options.table.outputName?_eq_map_ruleFor? name
    rw [hrule, Option.map_none] at hnone
    exact absurd hends (Extension.Table.outputName?_eq_none_iff.mp hnone source hsource)
  | some rule =>
    have hout := options.table.outputName?_eq_map_ruleFor? name
    rw [hrule, Option.map_some] at hout
    refine ⟨rule, relativeSpecifier dir output, rfl, ?_, fun hdots hbelow => ?_, fun habove => ?_⟩
    · rw [relink_eq, replacement_new]
      exact Resolver.replacement_of_isAbsolute hp habs
    · refine (List.suffix_append _ _).trans
        (Extension.Table.suffix_relativeSpecifier ht hd habs hname hout ?_ hbelow)
      exact fun e => hdots (hout.trans (congrArg some e))
    · exact Path.not_entersName_of_startsWith hd (options.table.isAbsolute_outputPath habs) habove

/-- Two rules fit the name, and the first gives the extension. -/
theorem relink_ends_in_output_of_declarations :
    let options : Options := ⟨⟨[(".d.ts", ".d.mts"), (".ts", ".mts")], by decide, by decide⟩⟩
    let found := Path.ofText "/p/lib/types.d.ts"
    let tree := FileTree.empty.insert found ""
    let resolve := (Search.mk tree.store true).resolver
    let dir := Path.ofText "/p/src"
    options.table.Slashless ∧ dir.isAbsolute = true ∧
      resolve dir "../lib/types" options.table.sources = .ok found ∧
      found.fileName? = some (Utf8.encode "types.d.ts".toList) ∧
      ".ts" ∈ options.table.sources ∧ ".ts".toList <:+ "types.d.ts".toList ∧
      options.table.outputName? "types.d.ts".toList ≠ some ['.', '.'] ∧
      dir.normal.startsWith (options.table.outputPath found).normal = false ∧
      ∃ text, ((new options).relink resolve dir "../lib/types").1 = .resolved text ∧
        ".d.mts".toList <:+ text.toList := by
  intro options found tree resolve dir
  have ht : options.table.Slashless := by unfold Extension.Table.Slashless; decide
  have hfound : resolve dir "../lib/types" options.table.sources = .ok found :=
    Resolver.eq_ok_of_toOption (by decide +kernel)
  have hname : found.fileName? = some (Utf8.encode "types.d.ts".toList) := by decide +kernel
  have hsource : ".ts" ∈ options.table.sources := by decide
  have hends : ".ts".toList <:+ "types.d.ts".toList := by decide
  have hdots : options.table.outputName? "types.d.ts".toList ≠ some ['.', '.'] := by decide
  have hbelow : dir.normal.startsWith (options.table.outputPath found).normal = false := by
    decide +kernel
  obtain ⟨rule, text, hrule, htext, hend, -⟩ :=
    relink_ends_in_output options ht tree (by decide) hfound hname hsource hends
  obtain rfl : (".d.ts", ".d.mts") = rule :=
    Option.some.inj ((by decide : _ = options.table.ruleFor? "types.d.ts".toList).trans hrule)
  exact ⟨ht, by decide, hfound, hname, hsource, hends, hdots, hbelow, text, htext,
    hend hdots hbelow⟩

/-! ## Where the extension is lost -/

/-- From a directory that is absolute and a text, and with no file beneath another, a specifier that
can be completed is relinked, but not to one with the output extension of its file. -/
structure LosesExtension (options : Options) (tree : FileTree) (dir : Path)
    (specifier text : String) : Prop where
  slashless : options.table.Slashless
  flat : ∀ f ∈ tree.files, ∀ g ∈ tree.files, g.1.startsWith f.1 = true → g.1 = f.1
  isAbsolute : dir.isAbsolute = true
  isText : dir.text?.isSome = true
  isCompletable : Specifier.isCompletable specifier = true
  relinked : ((new options).relink (Search.mk tree.store true).resolver dir specifier).1 =
    .resolved text
  lost : ∃ p name rule,
    (Search.mk tree.store true).resolver dir specifier options.table.sources = .ok p ∧
      p.fileName? = some (Utf8.encode name) ∧ options.table.ruleFor? name = some rule ∧
      ¬ rule.2.toList <:+ text.toList

/-- The extension is lost where the output lies at the directory, where it lies above it, and where
the new name leads up. -/
theorem losesExtension_of_dots :
    let tree := (FileTree.empty.insert (Path.ofText "/p/foo.ts") "").insert
      (Path.ofText "/p/foo.js/main.ts") ""
    let dots := FileTree.empty.insert (Path.ofText "/a/b/..ts") ""
    let undone : Options := ⟨⟨[(".ts", ".")], by decide, by decide⟩⟩
    LosesExtension {} tree (Path.ofText "/p/foo.js") "../foo" "./" ∧
      LosesExtension {} tree (Path.ofText "/p/foo.js/x") "../../foo" ".." ∧
      LosesExtension undone dots (Path.ofText "/x") "../a/b/..ts/c/.." "../a" := by
  intro tree dots undone
  have hts : ({} : Options).table.Slashless := by unfold Extension.Table.Slashless; decide
  have hdot : undone.table.Slashless := by unfold Extension.Table.Slashless; decide
  refine ⟨⟨hts, by decide +kernel, by decide, by decide +kernel, by decide, by decide +kernel, ?_⟩,
    ⟨hts, by decide +kernel, by decide, by decide +kernel, by decide, by decide +kernel, ?_⟩,
    ⟨hdot, by decide +kernel, by decide, by decide +kernel, by decide, by decide +kernel, ?_⟩⟩
  · exact ⟨Path.ofText "/p/foo.ts", "foo.ts".toList, (".ts", ".js"),
      Resolver.eq_ok_of_toOption (by decide +kernel), by decide +kernel, by decide, by decide⟩
  · exact ⟨Path.ofText "/p/foo.ts", "foo.ts".toList, (".ts", ".js"),
      Resolver.eq_ok_of_toOption (by decide +kernel), by decide +kernel, by decide, by decide⟩
  · exact ⟨Path.ofText "/a/b/..ts", "..ts".toList, (".ts", "."),
      Resolver.eq_ok_of_toOption (by decide +kernel), by decide +kernel, by decide, by decide⟩

end Session

end Relink
