import Relink.Proofs.Extension.Output

/-!
# Output files lie beside their sources

The output path of a file (`map_output_path`) is its parent and a new name: what stands before the
source extension, or the whole name if that is nothing, and then the output extension. A file with that
name lies in the same directory, unless the new name is no name: an output extension may hold a slash,
and a dot before an output of one dot makes two.

Results:
* `Path.beside_withFileName_iff`: a path with another file name lies beside the path if that is a name.
* `outputPath_beside`: where output files lie, and which files stay as they are.
* `not_beside_of_slash`: two output files that do not lie beside their sources.
-/

namespace Relink

/-- The path lies beside another under a name: it ends in the name, and their parents are one path. -/
def Path.Beside (q p : Path) (name : Bytes) : Prop :=
  q.fileName? = some name ∧
    ∃ dir dir', p.parent? = some dir ∧ q.parent? = some dir' ∧ dir'.Same dir

/-- **A path with another file name lies beside the path** exactly if that is a name. -/
theorem Path.beside_withFileName_iff {p : Path} (h : p.isAbsolute = true) {n : Bytes}
    (hn : p.fileName? = some n) {name : Bytes} :
    (p.withFileName name).Beside p name ↔ Plain name := by
  obtain ⟨cs, hcs⟩ := fileName?_eq_some_iff.mp hn
  have habs := isAbsolute_withFileName h name
  constructor
  · rintro ⟨hname, -⟩
    exact plain_of_fileName? habs hname
  · intro hname
    have hsteps : steps (p.withFileName name).bytes = cs ++ [.name name] := by
      rw [steps_withFileName hcs hname.slash_notMem, steps_plain hname]
    obtain ⟨dir, hdir, hdirAbs, hdirSteps, -⟩ := exists_parent? hcs
    obtain ⟨dir', hdir', hdirAbs', hdirSteps', -⟩ := exists_parent? hsteps
    refine ⟨fileName?_eq_some_iff.mpr ⟨cs, hsteps⟩, dir, dir', hdir, hdir', ?_⟩
    unfold Same
    rw [components_of_isAbsolute (hdirAbs.trans h), components_of_isAbsolute (hdirAbs'.trans habs),
      hdirSteps, hdirSteps']

namespace Extension.Table

/-- **Output files stay in place.** For any table and any path. If the path is absolute and its file name
is a text that ends in some source extension, then the output path is absolute: it is the parent and
the new name, made of what stands before the source of the first rule that fits, or of the whole name if
that is nothing, and of the output of that rule. It lies beside the path under the new name exactly if
that output holds no slash and the new name is not `..`. Every other path stays as it is. -/
theorem outputPath_beside (t : Table) (p : Path) :
    (∀ name source, p.isAbsolute = true → p.fileName? = some (Utf8.encode name) →
      source ∈ t.sources → source.toList <:+ name →
      ∃ rule rest, t.ruleFor? name = some rule ∧ name = rest ++ rule.1.toList ∧
        let new := (if rest = [] then name else rest) ++ rule.2.toList
        (t.outputPath p).isAbsolute = true ∧
          (∃ dir, p.parent? = some dir ∧ t.outputPath p = dir.join ⟨Utf8.encode new⟩) ∧
          ((t.outputPath p).Beside p (Utf8.encode new) ↔
            '/' ∉ rule.2.toList ∧ new ≠ ['.', '.'])) ∧
    ((p.isAbsolute = false ∨ ∀ name, p.fileName? = some (Utf8.encode name) →
        ∀ source ∈ t.sources, ¬ source.toList <:+ name) →
      t.outputPath p = p) := by
  constructor
  · intro name source habs hname hsource hends
    have hout := t.outputName?_eq_map_ruleFor? name
    cases hrule : t.ruleFor? name with
    | none =>
      -- The rule of the given source fits, so the first that fits is there.
      rw [hrule, Option.map_none] at hout
      exact absurd hends (outputName?_eq_none_iff.mp hout source hsource)
    | some rule =>
      obtain ⟨hmem, rest, hrest⟩ := exists_of_ruleFor? hrule
      have hstem : stem name rule.1.toList = if rest = [] then name else rest := by
        rw [hrest, stem_append]
      rw [hrule, Option.map_some] at hout
      have hpath := outputPath_of_some t habs hname hout
      have hplain := plain_stem_append_iff (Path.plain_of_fileName? habs hname)
        (hrest ▸ List.suffix_append rest _) (t.dotted rule hmem).2
      rw [hstem] at hpath hplain
      refine ⟨rule, rest, rfl, hrest, t.isAbsolute_outputPath habs, ?_, ?_⟩
      · obtain ⟨cs, hcs⟩ := Path.fileName?_eq_some_iff.mp hname
        obtain ⟨dir, hdir, -⟩ := Path.exists_parent? hcs
        refine ⟨dir, hdir, hpath.trans ?_⟩
        unfold Path.withFileName
        rw [hname, hdir, Option.isSome_some, if_pos rfl, Option.getD_some]
      · rw [hpath, Path.beside_withFileName_iff habs hname]
        exact hplain
  · rintro (hrelative | hnone)
    · unfold outputPath
      rw [hrelative, if_neg Bool.false_ne_true]
    · refine t.outputPath_of_none ?_
      cases hname : p.fileName?.bind Utf8.decode? with
      | none => rfl
      | some name =>
        obtain ⟨bytes, hbytes, htext⟩ := Option.bind_eq_some_iff.mp hname
        rw [Utf8.decode?_eq_some_iff.mp htext] at hbytes
        exact outputName?_eq_none_iff.mpr (hnone name hbytes)

/-- A file that is spelled with dots and slashes behind it, and one that is named like an extension. -/
theorem outputPath_beside_of_dots :
    let t : Table := ⟨[(".d.ts", ".d.mjs"), (".ts", ".js")], by decide, by decide⟩
    let p := Path.ofText "/p//a/./types.d.ts/."
    let q := Path.ofText "/p/.ts"
    let r := Path.ofText "/p/types.d.tsx"
    (p.isAbsolute = true ∧ p.fileName? = some (Utf8.encode "types.d.ts".toList) ∧
        ".ts" ∈ t.sources ∧ ".ts".toList <:+ "types.d.ts".toList) ∧
      (t.outputPath p).Beside p (Utf8.encode "types.d.mjs".toList) ∧
      (q.isAbsolute = true ∧ q.fileName? = some (Utf8.encode ".ts".toList)) ∧
      (t.outputPath q).Beside q (Utf8.encode ".ts.js".toList) ∧
      t.outputPath r = r := by
  intro t p q r
  have hp : p.isAbsolute = true ∧ p.fileName? = some (Utf8.encode "types.d.ts".toList) := by
    decide +kernel
  have hq : q.isAbsolute = true ∧ q.fileName? = some (Utf8.encode ".ts".toList) := by decide +kernel
  have hsource : ".ts" ∈ t.sources := by decide
  have hends : ".ts".toList <:+ "types.d.ts".toList := by decide
  have hmid : t.ruleFor? "types.d.ts".toList = some (".d.ts", ".d.mjs") := by decide
  have hwhole : t.ruleFor? ".ts".toList = some (".ts", ".js") := by decide
  refine ⟨⟨hp.1, hp.2, hsource, hends⟩, ?_, hq, ?_, ?_⟩
  · obtain ⟨rule, rest, hrule, hrest, -, -, hbeside⟩ :=
      (outputPath_beside t p).1 _ ".ts" hp.1 hp.2 hsource hends
    cases Option.some.inj (hrule.symm.trans hmid)
    obtain rfl : "types".toList = rest := List.append_cancel_right hrest
    exact hbeside.mpr (by decide)
  · obtain ⟨rule, rest, hrule, hrest, -, -, hbeside⟩ :=
      (outputPath_beside t q).1 _ ".ts" hq.1 hq.2 hsource List.suffix_rfl
    cases Option.some.inj (hrule.symm.trans hwhole)
    obtain rfl : [] = rest := List.append_cancel_right hrest
    exact hbeside.mpr (by decide)
  · have hr : r.fileName? = some (Utf8.encode "types.d.tsx".toList) := by decide +kernel
    refine (outputPath_beside t r).2 (.inr fun name hname => ?_)
    rw [Utf8.encode_inj.mp (Option.some.inj (hname.symm.trans hr))]
    decide

/-- An output that holds a slash leads to another directory, and a dot behind a dot is no name. -/
theorem not_beside_of_slash :
    let t : Table := ⟨[(".ts", "./../../x.js")], by decide, by decide⟩
    let p := Path.ofText "/p/q/foo.ts"
    let u : Table := ⟨[(".ts", ".")], by decide, by decide⟩
    let q := Path.ofText "/p/..ts"
    (ofPairs [(".ts", "./../../x.js")] = .ok t ∧ p.isAbsolute = true ∧
        p.fileName? = some (Utf8.encode "foo.ts".toList) ∧
        t.ruleFor? "foo.ts".toList = some (".ts", "./../../x.js") ∧
        (t.outputPath p).normal = Path.ofText "/p/x.js" ∧
        ¬ (t.outputPath p).Beside p (Utf8.encode "foo./../../x.js".toList)) ∧
      ofPairs [(".ts", ".")] = .ok u ∧ q.isAbsolute = true ∧
        q.fileName? = some (Utf8.encode "..ts".toList) ∧
        u.ruleFor? "..ts".toList = some (".ts", ".") ∧
        (u.outputPath q).fileName? = none ∧
        ¬ (u.outputPath q).Beside q (Utf8.encode "..".toList) := by
  intro t p u q
  have hp : (t.outputPath p).fileName? = some (Utf8.encode "x.js".toList) := by decide +kernel
  have hq : (u.outputPath q).fileName? = none := by decide +kernel
  refine ⟨⟨rfl, by decide +kernel, by decide +kernel, by decide, by decide +kernel, ?_⟩, rfl,
    by decide +kernel, by decide +kernel, by decide, hq, ?_⟩
  · rintro ⟨hname, -⟩
    exact absurd (hp.symm.trans hname) (by decide +kernel)
  · rintro ⟨hname, -⟩
    cases hq.symm.trans hname

end Extension.Table

end Relink
