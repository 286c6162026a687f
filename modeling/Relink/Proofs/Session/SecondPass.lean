import Relink.Files.Tree
import Relink.Proofs.Extension.Output
import Relink.Proofs.Session.History

/-!
# The second pass

Relinking a module (`rewrite_module`) that has been relinked finds most specifiers as it left them.
Those that got an extension cannot be completed any more. The others name a file that no rule of the
table fits, and the file itself comes first when the specifier is looked up again. Only a specifier that
ends in dots, and so leads to the directory or above it, may be completed once more.

Results:
* `isCompletable_or_exact`: the two ways in which a first pass settles a specifier.
* `relinked_relinked`: a specifier that enters a name is settled by its first relinking.
* `relinkModule_relinkModule`: the second pass over a module.
-/

namespace Relink

/-! ## What the first pass leaves -/

namespace Extension.Table

variable {t : Table} {dir p : Path} {init : List Bytes} {n : Bytes}

/-- A file to which a rule has been applied gets a specifier that cannot be completed. -/
theorem isCompletable_of_outputName? (ht : t.Ordinary) (hd : dir.isAbsolute = true)
    (hp : p.isAbsolute = true) {out : List Char}
    (hout : (p.fileName?.bind Utf8.decode?).bind t.outputName? = some out)
    (hdown : Path.down dir (t.outputPath p) = init ++ [n]) :
    Specifier.isCompletable (relativeSpecifier dir (t.outputPath p)) = false := by
  obtain ⟨name, hname, hrule⟩ := Option.bind_eq_some_iff.mp hout
  obtain ⟨bytes, hfile, hdecode⟩ := Option.bind_eq_some_iff.mp hname
  obtain rfl := Utf8.decode?_eq_some_iff.mp hdecode
  have hplain := Path.plain_of_fileName? hp hfile
  have hdots := ht.outputName?_ne_dots hrule fun e => hplain.ne_nil (e ▸ rfl)
  obtain ⟨stem, ext, rfl, hstem, hslash⟩ :=
    exists_of_outputName?_of_plain ht.slashless hrule hplain
  obtain ⟨before, hu, hends⟩ :=
    exists_relativeSpecifier_outputPath ht.slashless hd hp hfile hrule hdots hdown
  exact Specifier.isCompletable_eq_false hu hends hstem hslash hdots

/-- A file found by a source extension has an output, unless its name is no text. Then its specifier
shows the extension and cannot be completed. -/
theorem isCompletable_of_suffixed (ht : t.Ordinary) (hd : dir.isAbsolute = true) {base : Path}
    (hb : base.isAbsolute = true) (hn : base.normal = base) {ext : String} (hext : ext ∈ t.sources)
    (hout : ((base.append ext).fileName?.bind Utf8.decode?).bind t.outputName? = none)
    (hdown : Path.down dir (base.append ext) = init ++ [n]) :
    Specifier.isCompletable (relativeSpecifier dir (base.append ext)) = false := by
  have habs := Path.isAbsolute_append hb (Utf8.encode ext.toList)
  obtain ⟨rest, hrest⟩ := exists_of_mem_sources hext
  have hslash := slash_notMem_source ht.slashless hext
  -- A name that is a text and ends in the extension would have an output.
  have hnot (s : List Char) :
      (base.append ext).fileName? ≠ some (Utf8.encode (s ++ ext.toList)) := by
    intro e
    rw [e, Option.bind_some, Utf8.decode?_encode] at hout
    exact outputName?_ne_none hext s hout
  rcases List.eq_nil_or_concat' base.names with hnil | ⟨names, c, hnames⟩
  · rcases Path.fileName?_append_root hb hn hnil hslash with hroot | hfile
    · exact absurd hroot (Path.names_ne_nil_of_down hdown)
    · exact absurd hfile (hnot [])
  · have hc : Path.Plain c :=
      Path.plain_of_mem_names (hnames ▸ List.mem_append_right names List.mem_cons_self)
    have hplain := plain_append_source ht.slashless hc hext
    have hsteps := Path.steps_append hb hn hnames hplain
    have hfile := Path.fileName?_of_steps hsteps
    have hinvalid : ¬ Utf8.Valid c := by
      rintro ⟨s, rfl⟩
      rw [← Utf8.encode_append] at hfile
      exact hnot s hfile
    obtain rfl := Path.eq_of_down hdown (Path.names_of_steps habs hsteps)
    obtain ⟨before, hu, hends⟩ := Path.exists_relativeSpecifier_of_down hd habs hdown
    have hlossy : Utf8.lossy (c ++ Utf8.encode ext.toList) = Utf8.lossy c ++ '.' :: rest := by
      rw [hrest, Utf8.lossy_append_dot]
    have hshown := Utf8.slash_notMem_lossy hplain.slash_notMem
    have hne := Utf8.lossy_ne_nil hc.ne_nil
    rw [hlossy] at hu hshown
    refine Specifier.isCompletable_eq_false hu hends hne hshown fun e => hinvalid ?_
    exact Utf8.valid_of_lossy (by rw [(append_cons_eq_pair hne e).1]; decide)

/-- An index file has an output. -/
theorem outputName?_index_ne_none {base : Path} (hb : base.isAbsolute = true)
    (hn : base.normal = base) {ext : String} (hext : ext ∈ t.sources) (ht : t.Ordinary) :
    ((Search.indexPath base ext).fileName?.bind Utf8.decode?).bind t.outputName? ≠ none := by
  have hplain := plain_index ht.slashless hext
  have hsteps : Path.steps (Search.indexPath base ext).bytes =
      (base.names ++ [Utf8.encode ("index" ++ ext).toList]).map .name := by
    unfold Search.indexPath Path.ofText
    rw [Path.steps_join base (Path.isAbsolute_plain hplain), Path.steps_of_normal hb hn,
      Path.steps_plain hplain, List.map_append]
    rfl
  have hfile := Path.fileName?_of_steps (p := Search.indexPath base ext) hsteps
  rw [hfile, Option.bind_some, Utf8.decode?_encode, Option.bind_some, String.toList_append]
  exact outputName?_ne_none hext _

end Extension.Table

namespace Search

variable {t : Extension.Table} {tree : FileTree} {dir p : Path} {specifier : String}

/-- **The first pass settles a specifier that enters a name** in one of two ways: what it gets cannot
be completed, or it names a file that is answered as it was looked for and that no rule fits. -/
theorem isCompletable_or_exact (ht : t.Ordinary) (hd : dir.isAbsolute = true)
    (h : (Search.mk tree.store true).resolver dir specifier t.sources = .ok p)
    (henters : Specifier.EntersName (relativeSpecifier dir (t.outputPath p))) :
    Specifier.isCompletable (relativeSpecifier dir (t.outputPath p)) = false ∨
      (t.outputPath p = p ∧ tree.isFile p = true ∧ p.normal = p ∧
        Path.Branches dir.names p.names) := by
  obtain ⟨hfile, base, hbase, hform⟩ := exists_of_resolver_eq_ok rfl h
  have hn := base_eq_normal hbase
  have hb := isAbsolute_of_base hd hbase
  have hbranches : Path.Branches dir.names base.names := by
    refine base_induction (P := fun q => Path.Branches dir.names q.names) (Path.branches_self _)
      (fun q text hq => ?_) hbase
    rw [Path.names_normal]
    exact Path.branches_join hq text
  have hp := hform.isAbsolute hb
  obtain ⟨init, n, hdown⟩ :=
    Path.exists_down_of_entersName hd (t.isAbsolute_outputPath hp) henters
  cases hout : (p.fileName?.bind Utf8.decode?).bind t.outputName? with
  | some out => exact Or.inl (Extension.Table.isCompletable_of_outputName? ht hd hp hout hdown)
  | none =>
    have hsame := t.outputPath_of_none hout
    rw [hsame] at hdown ⊢
    cases hform with
    | exact => exact Or.inr ⟨rfl, hfile, hn, hbranches⟩
    | suffixed ext hext =>
      exact Or.inl (Extension.Table.isCompletable_of_suffixed ht hd hb hn hext hout hdown)
    | index ext hext =>
      exact absurd hout (Extension.Table.outputName?_index_ne_none hb hn hext ht)

/-- A file that is looked up by its own relative specifier is answered again. -/
theorem resolver_relativeSpecifier (hd : dir.isAbsolute = true) (hp : p.isAbsolute = true)
    (hn : p.normal = p) (hfile : tree.isFile p = true) (hbranches : Path.Branches dir.names p.names)
    (henters : Specifier.EntersName (relativeSpecifier dir p))
    (hrelative : Specifier.isRelative (relativeSpecifier dir p) = true) (extensions : List String) :
    (Search.mk tree.store true).resolver dir (relativeSpecifier dir p) extensions = .ok p := by
  have htarget : target dir (relativeSpecifier dir p) = p :=
    (Path.normal_eq_iff.mpr (Path.route_join_relativeSpecifier hd hp
      (Path.valid_of_mem_down hbranches))).trans hn
  obtain ⟨init, n, hdown⟩ := Path.exists_down_of_entersName hd hp henters
  obtain ⟨before, hu, -⟩ := Path.exists_relativeSpecifier_of_down hd hp hdown
  have hplain : Path.Plain n :=
    Path.plain_of_mem_down (hdown ▸ List.mem_append_right init List.mem_cons_self)
  have hdirectory := meansDirectory_eq_false hu (Utf8.lossy_ne_nil hplain.ne_nil)
    (Utf8.slash_notMem_lossy hplain.slash_notMem) hrelative
  have hlocate : (Search.mk tree.store true).locate p false extensions = some p :=
    locate_of_isFile _ hfile extensions
  unfold resolver
  rw [Specifier.isPath_of_isRelative hrelative, htarget, hdirectory, hlocate]
  rfl

end Search

/-- **A specifier that enters a name is settled by its first relinking.** -/
theorem Search.relinked_relinked {t : Extension.Table} (ht : t.Ordinary) (tree : FileTree)
    {dir : Path} (hd : dir.isAbsolute = true) (specifier : String) :
    let settle := (Search.mk tree.store true).resolver.relinked t dir
    Specifier.EntersName (settle specifier) → settle (settle specifier) = settle specifier := by
  intro settle h
  have hkeep {u : String} (hu : ¬ Specifier.isCompletable u = true) : settle u = u :=
    Resolver.relinked_of_not_isCompletable _ t dir hu
  have hrelink {u : String} (hu : Specifier.isCompletable u = true) :
      settle u = ((Search.mk tree.store true).resolver.replacement t dir u).specifier :=
    Resolver.relinked_of_isCompletable _ t dir hu
  by_cases hc : Specifier.isCompletable specifier = true
  · rcases Resolver.replacement_cases (Search.mk tree.store true).resolver t dir specifier with
      hmiss | ⟨p, hanswer, hp, hfound⟩
    · have hsame : settle specifier = specifier := by rw [hrelink hc, hmiss]; rfl
      rw [hsame, hsame]
    · have hfirst : settle specifier = relativeSpecifier dir (t.outputPath p) := by
        rw [hrelink hc, hfound]; rfl
      rw [hfirst] at h ⊢
      by_cases hagain : Specifier.isCompletable (relativeSpecifier dir (t.outputPath p)) = true
      · -- Only a file that no rule fits is left, and it is answered again.
        obtain ⟨hsame, hfile, hn, hbranches⟩ :=
          (isCompletable_or_exact ht hd hanswer h).resolve_left (by simp [hagain])
        rw [hsame] at h hagain ⊢
        have hanswer' := resolver_relativeSpecifier hd hp hn hfile hbranches h
          (Specifier.isRelative_of_isCompletable hagain) t.sources
        rw [hrelink hagain, Resolver.replacement_of_isAbsolute hanswer' hp, hsame]
        rfl
      · exact hkeep hagain
  · rw [hkeep hc, hkeep hc]

/-! ## The second pass over a module -/

namespace Session

/-- **The second pass.** For any tree of files, any options whose table is ordinary, any file and any
module: relink the module in a new session, and the result again in the same session or in another
new one. A specifier that enters a name stays as the first pass left it. Where the second pass does
change a specifier, the first pass had changed it too, and it leads to the directory of the file or
above. -/
theorem relinkModule_relinkModule (tree : FileTree) (options : Options)
    (ht : options.table.Ordinary) (file : Path) (m : ModuleTree) :
    let resolve := (Search.mk tree.store true).resolver
    let first := (new options).relinkModule resolve file m
    ∀ s, s = first.2 ∨ s = new options →
      let second := s.relinkModule resolve file first.1
      second.1.specifiers.length = first.1.specifiers.length ∧
      (∀ (i : Nat) (t : String), first.1.specifiers[i]? = some t → Specifier.EntersName t →
        second.1.specifiers[i]? = some t) ∧
      ∀ (i : Nat) (t : String), first.1.specifiers[i]? = some t →
        second.1.specifiers[i]? ≠ some t →
        m.specifiers[i]? ≠ some t ∧
          file.containingDir.normal.startsWith
            (file.containingDir.join (Path.ofText t)).normal = true := by
  intro resolve first s hs second
  have hsteady := (Search.mk tree.store true).steady options.table
  have hnew := after_new resolve options
  have hfirst := hnew.specifiers_relinkModule hsteady file m
  have hsecond : second.1.specifiers =
      first.1.specifiers.map (resolve.relinked options.table file.containingDir) := by
    rcases hs with rfl | rfl
    · exact (hnew.relinkModule hsteady file m).2.specifiers_relinkModule hsteady file first.1
    · exact hnew.specifiers_relinkModule hsteady file first.1
  have hdir := Path.isAbsolute_containingDir file
  have hkept : ∀ (i : Nat) (t : String), first.1.specifiers[i]? = some t →
      Specifier.EntersName t → resolve.relinked options.table file.containingDir t = t := by
    intro i t hi henters
    rw [hfirst, List.getElem?_map] at hi
    obtain ⟨source, -, rfl⟩ := Option.map_eq_some_iff.mp hi
    exact Search.relinked_relinked ht tree hdir source henters
  refine ⟨by rw [hsecond, List.length_map], fun i t hi henters => ?_, fun i t hi hchanged => ?_⟩
  · rw [hsecond, List.getElem?_map, hi, Option.map_some, hkept i t hi henters]
  · rw [hsecond, List.getElem?_map, hi, Option.map_some] at hchanged
    have hmoved : resolve.relinked options.table file.containingDir t ≠ t :=
      fun e => hchanged (congrArg some e)
    refine ⟨fun hsource => hmoved ?_, ?_⟩
    · rw [hfirst, List.getElem?_map, hsource] at hi
      exact Option.some.inj hi
    · have hcompletable : Specifier.isCompletable t = true :=
        Decidable.byContradiction fun hnot =>
          hmoved (Resolver.relinked_of_not_isCompletable _ _ _ hnot)
      exact Path.startsWith_of_not_entersName hdir
        (Specifier.isRelative_of_isCompletable hcompletable) fun h => hmoved (hkept i t hi h)

/-- A file without extension keeps its specifier. A file that is found where the directory itself is
gets dots only, and the second pass completes them. -/
theorem relinkModule_relinkModule_of_dots :
    let tree := ((FileTree.empty.insert (Path.ofText "/p") "").insert (Path.ofText "/p/main")
      "").insert (Path.ofText "/p/index.ts") ""
    let resolve := (Search.mk tree.store true).resolver
    let file := Path.ofText "/p/x.ts"
    let module := ModuleTree.mk {} (["../p", "./main"].map fun text =>
      .importing {} ⟨false, none, none, .string {} text⟩)
    let first := (new {}).relinkModule resolve file module
    let second := first.2.relinkModule resolve file first.1
    ({} : Options).table.Ordinary ∧ first.1.specifiers = ["./", "./main"] ∧
      second.1.specifiers = ["./index.js", "./main"] ∧ Specifier.EntersName "./main" ∧
      second.1.specifiers[1]? = some "./main" ∧
      file.containingDir.normal.startsWith
        (file.containingDir.join (Path.ofText "./")).normal = true := by
  intro tree resolve file module first second
  have ht : ({} : Options).table.Ordinary := ⟨by decide, by decide⟩
  have hfirst : first.1.specifiers = ["./", "./main"] := by decide +kernel
  have hsecond : second.1.specifiers = ["./index.js", "./main"] := by decide +kernel
  have henters : Specifier.EntersName "./main" :=
    Specifier.entersName_iff.mpr ⟨Utf8.encode "main".toList, by decide +kernel⟩
  obtain ⟨-, hkept, hdots⟩ := relinkModule_relinkModule tree {} ht file module first.2 (Or.inl rfl)
  refine ⟨ht, hfirst, hsecond, henters, hkept 1 "./main" ?_ henters, (hdots 0 "./" ?_ ?_).2⟩
  · exact (congrArg (·[1]?) hfirst).trans rfl
  · exact (congrArg (·[0]?) hfirst).trans rfl
  · exact fun e => absurd ((congrArg (·[0]?) hsecond).symm.trans e) (by decide)

end Session

end Relink
