import Relink.Proofs.Path.FileName

/-!
# Output files

Where the compiled file of a source file goes (`map_output_path`). The output path of an absolute path
is absolute, is a text when the path is one, and lies beside the source under another name.

Results:
* `isAbsolute_outputPath`, `valid_outputPath`: what `Table.outputPath` keeps of a path.
* `plain_stem_append_iff`: when a stem and an extension are a name.
* `outputName?_eq_map_ruleFor?`: a new name is made by the first rule that fits.
* `exists_of_outputName?`: a new name is part of the old one and then an output extension.
* `outputName?_eq_none_iff`: no rule fits exactly the names that end in no source extension.
* `exists_of_outputName?_of_plain`: a new name has an extension, provided the table is `Slashless`.
* `exists_relativeSpecifier_outputPath`: how the specifier of an output file ends.
-/

namespace Relink.Extension.Table

variable (t : Table)

theorem isAbsolute_outputPath {file : Path} (h : file.isAbsolute = true) :
    (t.outputPath file).isAbsolute = true := by
  unfold outputPath
  rw [if_pos h]
  split
  · exact Path.isAbsolute_withFileName h _
  · exact h

theorem valid_outputPath {file : Path} (h : file.isAbsolute = true)
    (hvalid : Utf8.Valid file.bytes) : Utf8.Valid (t.outputPath file).bytes := by
  unfold outputPath
  rw [if_pos h]
  split
  · exact Path.valid_withFileName hvalid ⟨_, rfl⟩
  · exact hvalid

/-- What stands before an extension, or the whole name if that is nothing. -/
theorem stem_append (rest source : List Char) :
    stem (rest ++ source) source = if rest = [] then rest ++ source else rest := by
  unfold stem
  cases rest with
  | nil => rw [List.nil_append, if_pos rfl, if_pos rfl]
  | cons c rest =>
    rw [if_neg (by simp; omega), if_neg (by simp), List.length_append, Nat.add_sub_cancel,
      List.take_left]

/-- The stem of a name that is not empty is not empty. -/
theorem stem_ne_nil {name source : List Char} (hname : name ≠ []) (h : source <:+ name) :
    stem name source ≠ [] := by
  obtain ⟨rest, rfl⟩ := h
  rw [stem_append]
  split
  · exact hname
  · assumption

/-- A stem holds no character that the name does not hold. -/
theorem mem_of_mem_stem {name source : List Char} {c : Char} (h : c ∈ stem name source) :
    c ∈ name := by
  unfold stem at h
  split at h
  · exact h
  · exact List.mem_of_mem_take h

/-- A stem and an extension are a name unless the extension holds a slash or they are two dots. -/
theorem plain_stem_append_iff {name source ext : List Char} (hname : Path.Plain (Utf8.encode name))
    (hsuffix : source <:+ name) (hdot : ext.head? = some '.') :
    Path.Plain (Utf8.encode (stem name source ++ ext)) ↔
      '/' ∉ ext ∧ stem name source ++ ext ≠ ['.', '.'] := by
  constructor
  · intro hplain
    refine ⟨fun hm => hplain.slash_notMem (Path.slash_mem_encode (List.mem_append_right _ hm)), ?_⟩
    exact fun e => hplain.ne_dotDot (congrArg Utf8.encode e)
  · rintro ⟨hslash, hdots⟩
    have hne : name ≠ [] := fun e => hname.ne_nil (e ▸ rfl)
    obtain ⟨c, before, hstem⟩ := List.exists_cons_of_ne_nil (stem_ne_nil hne hsuffix)
    obtain ⟨rest, rfl⟩ := List.head?_eq_some_iff.mp hdot
    refine Path.plain_encode (by simp) (fun e => ?_) hdots fun hm => ?_
    · -- A dot behind a name is not a dot alone.
      simp [hstem] at e
    · rcases List.mem_append.mp hm with hm | hm
      · exact hname.slash_notMem (Path.slash_mem_encode (mem_of_mem_stem hm))
      · exact hslash hm

/-- A new name is the stem of the old one and then an output extension. -/
theorem exists_of_outputName? {t : Table} {name out : List Char} (h : t.outputName? name = some out) :
    ∃ rule ∈ t.rules, rule.1.toList <:+ name ∧
      out = stem name rule.1.toList ++ rule.2.toList := by
  obtain ⟨rule, hrule, hr⟩ := List.exists_of_findSome?_eq_some h
  split at hr
  · next hs => exact ⟨rule, hrule, List.isSuffixOf_iff_suffix.mp hs, (Option.some.inj hr).symm⟩
  · cases hr

/-- The first rule whose source ends a name. -/
def ruleFor? (t : Table) (name : List Char) : Option (String × String) :=
  t.rules.find? fun rule => rule.1.toList.isSuffixOf name

/-- The first rule that fits a name ends it. -/
theorem exists_of_ruleFor? {t : Table} {name : List Char} {rule : String × String}
    (h : t.ruleFor? name = some rule) : rule ∈ t.rules ∧ ∃ rest, name = rest ++ rule.1.toList := by
  have hfit := List.find?_some h
  obtain ⟨rest, hrest⟩ := List.isSuffixOf_iff_suffix.mp hfit
  exact ⟨List.mem_of_find?_eq_some h, rest, hrest.symm⟩

/-- The first rule whose source ends a name makes its new name. -/
theorem outputName?_eq_map_ruleFor? (t : Table) (name : List Char) :
    t.outputName? name =
      (t.ruleFor? name).map fun rule => stem name rule.1.toList ++ rule.2.toList := by
  unfold outputName? ruleFor?
  induction t.rules with
  | nil => rfl
  | cons rule rest ih =>
    rw [List.findSome?_cons, List.find?_cons, ih]
    cases rule.1.toList.isSuffixOf name <;> rfl

/-- No rule fits exactly the names that end in no source extension. -/
theorem outputName?_eq_none_iff {t : Table} {name : List Char} :
    t.outputName? name = none ↔ ∀ source ∈ t.sources, ¬ source.toList <:+ name := by
  unfold outputName? sources
  rw [List.findSome?_eq_none_iff, List.forall_mem_map]
  refine forall_congr' fun rule => forall_congr' fun _ => ?_
  rw [ite_eq_right_iff, List.isSuffixOf_iff_suffix]
  exact ⟨fun h hs => absurd (h hs) (by simp), fun h hs => absurd hs h⟩

/-- The output path of a file whose name no rule fits is the file. -/
theorem outputPath_of_none {file : Path}
    (h : (file.fileName?.bind Utf8.decode?).bind t.outputName? = none) :
    t.outputPath file = file := by
  unfold outputPath
  rw [h]
  split <;> rfl

/-- The output path of a file whose name a rule fits lies beside it. -/
theorem outputPath_of_some {file : Path} (h : file.isAbsolute = true) {name out : List Char}
    (hname : file.fileName? = some (Utf8.encode name)) (hout : t.outputName? name = some out) :
    t.outputPath file = file.withFileName (Utf8.encode out) := by
  unfold outputPath
  rw [if_pos h, hname, Option.bind_some, Utf8.decode?_encode, Option.bind_some, hout]

/-! ## Tables without slashes -/

/-- No extension holds a slash. -/
def Slashless (t : Table) : Prop :=
  ∀ rule ∈ t.rules, '/' ∉ rule.1.toList ∧ '/' ∉ rule.2.toList

/-- Extensions start with a dot. -/
theorem exists_of_dotted {ext : String} (h : Dotted ext) : ∃ rest, ext.toList = '.' :: rest :=
  List.head?_eq_some_iff.mp h

theorem exists_of_mem_sources {t : Table} {ext : String} (h : ext ∈ t.sources) :
    ∃ rest, ext.toList = '.' :: rest := by
  obtain ⟨rule, hrule, rfl⟩ := List.mem_map.mp h
  exact exists_of_dotted (t.dotted rule hrule).1

theorem slash_notMem_source {t : Table} (ht : t.Slashless) {ext : String} (h : ext ∈ t.sources) :
    '/' ∉ ext.toList := by
  obtain ⟨rule, hrule, rfl⟩ := List.mem_map.mp h
  exact (ht rule hrule).1

/-- A name stays one behind a source extension. -/
theorem plain_append_source {t : Table} (ht : t.Slashless) {n : Bytes} (hn : Path.Plain n)
    {ext : String} (h : ext ∈ t.sources) : Path.Plain (n ++ Utf8.encode ext.toList) := by
  have hslash := slash_notMem_source ht h
  obtain ⟨rest, hrest⟩ := exists_of_mem_sources h
  rw [hrest] at hslash ⊢
  exact hn.append_dot fun hm => hslash (List.mem_cons_of_mem _ hm)

theorem plain_index {t : Table} (ht : t.Slashless) {ext : String} (h : ext ∈ t.sources) :
    Path.Plain (Utf8.encode ("index" ++ ext).toList) :=
  Path.plain_index (slash_notMem_source ht h)

section NewName

variable {t : Table} (ht : t.Slashless) {name out : List Char} (h : t.outputName? name = some out)
  (hname : Path.Plain (Utf8.encode name))

include ht h hname

/-- **A new name has an extension**: a dot with something before it. -/
theorem exists_of_outputName?_of_plain :
    ∃ stem ext, out = stem ++ '.' :: ext ∧ stem ≠ [] ∧ '/' ∉ out := by
  obtain ⟨rule, hrule, hsuffix, rfl⟩ := exists_of_outputName? h
  obtain ⟨ext, hext⟩ := exists_of_dotted (t.dotted rule hrule).2
  have hne : name ≠ [] := fun e => hname.ne_nil (e ▸ rfl)
  refine ⟨_, ext, by rw [hext], stem_ne_nil hne hsuffix, fun hm => ?_⟩
  rcases List.mem_append.mp hm with hm | hm
  · exact hname.slash_notMem (Path.slash_mem_encode (mem_of_mem_stem hm))
  · exact (ht rule hrule).2 hm

/-- A new name that is more than dots is plain. -/
theorem plain_outputName? (hdots : out ≠ ['.', '.']) : Path.Plain (Utf8.encode out) := by
  obtain ⟨rule, hrule, hsuffix, rfl⟩ := exists_of_outputName? h
  exact (plain_stem_append_iff hname hsuffix (t.dotted rule hrule).2).mpr
    ⟨(ht rule hrule).2, hdots⟩

end NewName

/-- The specifier of an output file that is to be entered ends in the new name, unless that is made of
dots. -/
theorem exists_relativeSpecifier_outputPath {t : Table} (ht : t.Slashless) {dir file : Path}
    (hd : dir.isAbsolute = true) (hf : file.isAbsolute = true) {name out : List Char}
    (hname : file.fileName? = some (Utf8.encode name)) (hout : t.outputName? name = some out)
    (hdots : out ≠ ['.', '.']) {init : List Bytes} {n : Bytes}
    (hdown : Path.down dir (t.outputPath file) = init ++ [n]) :
    ∃ before, (relativeSpecifier dir (t.outputPath file)).toList = before ++ out ∧
      Specifier.EndsSegment before := by
  have hplain := plain_outputName? ht hout (Path.plain_of_fileName? hf hname) hdots
  obtain ⟨names, -, hnames⟩ := Path.names_withFileName hf hname hplain
  rw [← outputPath_of_some t hf hname hout] at hnames
  obtain ⟨before, hu, hends⟩ :=
    Path.exists_relativeSpecifier_of_down hd (t.isAbsolute_outputPath hf) hdown
  rw [Path.eq_of_down hdown hnames, Utf8.lossy_encode] at hu
  exact ⟨before, hu, hends⟩

/-! ## Ordinary tables -/

/-- No extension holds a slash, and no output is a dot alone. -/
structure Ordinary (t : Table) : Prop where
  slash_notMem : ∀ rule ∈ t.rules, '/' ∉ rule.1.toList ∧ '/' ∉ rule.2.toList
  output_ne_dot : ∀ rule ∈ t.rules, rule.2 ≠ "."

theorem Ordinary.slashless {t : Table} (ht : t.Ordinary) : t.Slashless :=
  ht.slash_notMem

/-- A new name is more than dots. -/
theorem Ordinary.outputName?_ne_dots {t : Table} (ht : t.Ordinary) {name out : List Char}
    (h : t.outputName? name = some out) (hname : name ≠ []) : out ≠ ['.', '.'] := by
  obtain ⟨rule, hrule, hsuffix, rfl⟩ := exists_of_outputName? h
  obtain ⟨ext, hext⟩ := exists_of_dotted (t.dotted rule hrule).2
  intro e
  rw [hext] at e
  rw [(append_cons_eq_pair (stem_ne_nil hname hsuffix) e).2] at hext
  exact ht.output_ne_dot rule hrule (String.toList_inj.mp hext)

/-- A rule fits every name that ends in a source extension. -/
theorem outputName?_ne_none {t : Table} {ext : String} (h : ext ∈ t.sources) (stem : List Char) :
    t.outputName? (stem ++ ext.toList) ≠ none :=
  fun e => outputName?_eq_none_iff.mp e ext h (List.suffix_append stem _)

end Relink.Extension.Table
