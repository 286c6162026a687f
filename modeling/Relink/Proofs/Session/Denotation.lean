import Relink.Files.Tree
import Relink.Proofs.Extension.Output
import Relink.Proofs.Resolve.Candidates
import Relink.Proofs.Session.Lookup

/-!
# A relinked specifier denotes the output file

What a session writes for a specifier (`rewrite_specifier`) is the way from the importing directory to
the compiled file. Read lexically from that directory, it comes back to that file, however the directory
and the answer of the resolver are spelled.

Results:
* `normal_join_relativeSpecifier`: the round trip for files whose path is a text.
* `answer_of_tree`: what the search in a tree of files answers is an absolute path, a text and a file.
* `relink_denotes_output`: both together, with the misses.
-/

namespace Relink

namespace Path

/-- A directory and a file that is a text: the specifier of the file, read from the directory,
leads to the file. -/
theorem normal_join_relativeSpecifier {dir file : Path} (hd : dir.isAbsolute = true)
    (hf : file.isAbsolute = true) (hvalid : Utf8.Valid file.bytes) :
    (dir.join (Path.ofText (relativeSpecifier dir file))).normal = file.normal := by
  refine normal_eq_iff.mpr (route_join_relativeSpecifier hd hf fun n hn => ?_)
  obtain ⟨shared, -, hnames⟩ := exists_shared dir file
  have hmem : n ∈ file.names := by
    rw [hnames]
    exact List.mem_append_right shared hn
  exact valid_of_mem_route hvalid n (List.mem_reverse.mp hmem)

end Path

namespace Search

/-- Absolute and a text: what reading texts from a directory keeps. -/
def Written (p : Path) : Prop :=
  p.isAbsolute = true ∧ Utf8.Valid p.bytes

theorem written_normal_join {d : Path} (h : Written d) (text : String) :
    Written (d.join (Path.ofText text)).normal :=
  ⟨Path.isAbsolute_normal_join h.1 _, Path.valid_normal (Path.valid_join h.2 (Path.valid_ofText text))⟩

theorem Form.written {extensions : List String} {base c : Path} (h : Form extensions base c)
    (hbase : Written base) : Written c := by
  refine ⟨h.isAbsolute hbase.1, ?_⟩
  cases h with
  | exact => exact hbase.2
  | suffixed ext _ => exact Utf8.valid_append hbase.2 ⟨ext.toList, rfl⟩
  | index ext _ => exact Path.valid_join hbase.2 (Path.valid_ofText _)

/-- What the search in a tree of files answers is an absolute path, a text and a file. -/
theorem answer_of_tree {tree : FileTree} {dir p : Path} {specifier : String}
    {extensions : List String} (hdir : Written dir)
    (h : (Search.mk tree.store true).resolver dir specifier extensions = .ok p) :
    Written p ∧ tree.isFile p = true := by
  obtain ⟨hfile, base, hbase, hform⟩ := exists_of_resolver_eq_ok rfl h
  exact ⟨hform.written (base_induction hdir (fun d text hd => written_normal_join hd text) hbase),
    hfile⟩

end Search

namespace Session

/-- **A relinked specifier denotes the output file.** For any resolver, table, absolute directory and
specifier: an absolute answer that is a text is relinked to a text that leads from the directory to
the output path of the answer, and every other outcome keeps the specifier. What the search in a tree
of files answers from a directory that is a text is absolute, a text and a file. -/
theorem relink_denotes_output (options : Options) :
    (∀ (resolve : Resolver) (dir : Path) (specifier : String), dir.isAbsolute = true →
      (∀ p, resolve dir specifier options.table.sources = .ok p → p.isAbsolute = true →
        p.text?.isSome = true →
        ∃ text, ((new options).relink resolve dir specifier).1 = .resolved text ∧
          (dir.join (Path.ofText text)).normal = (options.table.outputPath p).normal) ∧
      (∀ p, resolve dir specifier options.table.sources = .ok p → p.isAbsolute = false →
        ((new options).relink resolve dir specifier).1 = .miss specifier) ∧
      (∀ fault, resolve dir specifier options.table.sources = .error fault →
        ((new options).relink resolve dir specifier).1 = .miss specifier)) ∧
    (∀ (tree : FileTree) (dir : Path) (specifier : String) (extensions : List String) (p : Path),
      dir.isAbsolute = true → dir.text?.isSome = true →
      (Search.mk tree.store true).resolver dir specifier extensions = .ok p →
      p.isAbsolute = true ∧ p.text?.isSome = true ∧ tree.isFile p = true) := by
  refine ⟨fun resolve dir specifier hdir => ⟨?_, ?_, ?_⟩, ?_⟩
  · intro p hp habs htext
    have hout := options.table.isAbsolute_outputPath habs
    refine ⟨relativeSpecifier dir (options.table.outputPath p), ?_, ?_⟩
    · rw [relink_eq, replacement_new]
      exact Resolver.replacement_of_isAbsolute hp habs
    · exact Path.normal_join_relativeSpecifier hdir hout
        (options.table.valid_outputPath habs (Path.text?_isSome_iff.mp htext))
  · intro p hp habs
    rw [relink_eq, replacement_new]
    exact Resolver.replacement_of_not_isAbsolute hp habs
  · intro fault hfault
    rw [relink_eq, replacement_new]
    exact Resolver.replacement_of_error hfault
  · intro tree dir specifier extensions p hdir htext h
    obtain ⟨⟨habs, hvalid⟩, hfile⟩ := Search.answer_of_tree ⟨hdir, Path.text?_isSome_iff.mp htext⟩ h
    exact ⟨habs, Path.text?_isSome_iff.mpr hvalid, hfile⟩

/-- The index file of a dotted directory, imported from a directory that is spelled with `..`. -/
theorem relink_denotes_output_of_index :
    let dir := Path.ofText "/proj/x/../src"
    let found := Path.ofText "/proj/src/.baz/index.ts"
    let tree := FileTree.empty.insert found ""
    let resolve := (Search.mk tree.store true).resolver
    dir.isAbsolute = true ∧ dir.text?.isSome = true ∧ found.isAbsolute = true ∧
      found.text?.isSome = true ∧ resolve dir "./.baz" [".ts", ".tsx"] = .ok found ∧
      tree.isFile found = true ∧
      ∃ text, ((new {}).relink resolve dir "./.baz").1 = .resolved text ∧
        (dir.join (Path.ofText text)).normal = Path.ofText "/proj/src/.baz/index.js" := by
  intro dir found tree resolve
  have hdir : dir.isAbsolute = true := by decide
  have hdirText : dir.text?.isSome = true := by decide +kernel
  have hfound : resolve dir "./.baz" [".ts", ".tsx"] = .ok found :=
    Resolver.eq_ok_of_toOption (by decide +kernel)
  obtain ⟨habs, htext, hfile⟩ :=
    (relink_denotes_output {}).2 tree dir "./.baz" [".ts", ".tsx"] found hdir hdirText hfound
  obtain ⟨text, hr, hn⟩ :=
    ((relink_denotes_output {}).1 resolve dir "./.baz" hdir).1 found hfound habs htext
  refine ⟨hdir, hdirText, habs, htext, hfound, hfile, text, hr, hn.trans ?_⟩
  decide +kernel

end Session

end Relink
