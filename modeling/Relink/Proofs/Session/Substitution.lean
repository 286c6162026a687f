import Relink.Files.Tree
import Relink.Proofs.Session.History
import Relink.Proofs.Tree.Substitute

/-!
# Relinking a module is a substitution

What a session gives for a specifier in a directory does not change once it has been given, and what it
gives for others does not depend on that. So a module comes out (`rewrite_module`) with one text for
each of its specifiers, the one that the session would have given before it saw the module.

Results:
* `replacement_relink`: what a session gives after a look-up, for any pair.
* `relinkModule_eq_substitute`: a module comes out as a substitution, from any state of the session on.
* `relinkModule_marks_iff`: relinking keeps all ranges of a module but those of what replaced specifiers
  hold. `forgetsRange_of_miss` is a module that is changed by nothing else.
-/

namespace Relink.Session

/-! ## One look-up after another -/

/-- What a session gives for a pair after it has looked up another. -/
theorem replacement_relink (resolve : Resolver) (dir : Path) (specifier : String) (s : Session)
    (d : Path) (sp : String) :
    (s.relink resolve dir specifier).2.replacement resolve d sp =
      if Cache.keyOf d sp = Cache.keyOf dir specifier then s.replacement resolve dir specifier
      else s.replacement resolve d sp := by
  rw [relink_eq]
  unfold replacement
  dsimp only
  rw [Cache.get?_fetch, Cache.fetch_fst]
  split <;> rfl

/-- In one directory, a look-up changes nothing about what a session gives. -/
theorem replacement_relink_self (resolve : Resolver) (dir : Path) (specifier : String) (s : Session)
    (sp : String) :
    (s.relink resolve dir specifier).2.replacement resolve dir sp = s.replacement resolve dir sp := by
  rw [replacement_relink]
  split
  · next h => rw [(Cache.Key.mk.inj h).2]
  · rfl

/-- Relinking specifiers of one directory gives what the session would have given for each. -/
theorem relinkEach_requests (resolve : Resolver) (dir : Path) (specifiers : List String)
    (s : Session) :
    (s.relinkEach resolve (Specifier.requests dir specifiers)).1 =
      (specifiers.filter Specifier.isCompletable).map (s.replacement resolve dir) := by
  unfold Specifier.requests
  induction specifiers.filter Specifier.isCompletable generalizing s with
  | nil => rfl
  | cons v rest ih =>
    have hrest := ih (s.relink resolve dir v).2
    have hsame : (s.relink resolve dir v).2.replacement resolve dir = s.replacement resolve dir :=
      funext (replacement_relink_self resolve dir v s)
    rw [hsame] at hrest
    have hfirst : (s.relink resolve dir v).1 = s.replacement resolve dir v := by rw [relink_eq]
    exact congr (congrArg List.cons hfirst) hrest

/-- **Relinking a module is a substitution**, from any state of the session on. -/
theorem relinkModule_eq_substitute (resolve : Resolver) (file : Path) (m : ModuleTree)
    (s : Session) :
    (s.relinkModule resolve file m).1 =
      m.substitute fun v => (s.replacement resolve file.containingDir v).specifier := by
  rw [(relinkModule_follows resolve file m s).1, ModuleTree.requests, relinkEach_requests,
    List.map_map, ← ModuleTree.exchange_map]
  rfl

/-! ## Ranges -/

/-- **Relinking a module keeps its ranges**, for any resolver, file, module and session: the range of
the module, and those of all nodes and of what they hold, but for what is held by the specifiers that
are replaced, where the range is forgotten. All ranges are kept exactly where none of these specifiers
holds anything that has one. A module whose specifiers all keep their texts comes out as it went in
exactly under the same condition. -/
theorem relinkModule_marks_iff (resolve : Resolver) (file : Path) (m : ModuleTree) (s : Session) :
    let after := (s.relinkModule resolve file m).1
    after.span = m.span ∧ after.marks = m.unrange.marks ∧
      (after.marks = m.marks ↔ m.Unranged) ∧
      (after.specifiers = m.specifiers → (after = m ↔ m.Unranged)) := by
  intro after
  have hafter : after = m.substitute _ := relinkModule_eq_substitute resolve file m s
  refine ⟨by rw [hafter]; rfl, ?_, ?_, fun hsame => ?_⟩
  · rw [hafter, ← ModuleTree.exchange_map]
    exact m.marks_exchange (List.length_map _)
  · rw [hafter, ModuleTree.marks_substitute_iff]
  · rw [hafter] at hsame ⊢
    exact ModuleTree.substitute_eq_self_iff hsame

/-- A namespace that exports a file without extension. Its specifier was replaced before, so what the
string holds has no range, and the module comes out as it went in. -/
theorem relinkModule_marks_iff_of_data :
    let tree := FileTree.empty.insert (Path.ofText "/p/lib/data") ""
    let resolve := (Search.mk tree.store true).resolver
    let file := Path.ofText "/p/src/x.ts"
    let specifier := Expr.string ⟨⟨20, 33⟩, {}⟩ "../lib/data"
    let m := ModuleTree.mk ⟨0, 50⟩ [.scope ⟨⟨0, 50⟩, ⟨1, 49⟩⟩ (.namespaced "N")
      [.exporting ⟨⟨10, 40⟩, ⟨11, 39⟩⟩ ⟨true, .all none, some specifier⟩]]
    let after := ((new {}).relinkModule resolve file m).1
    after.specifiers = m.specifiers ∧ m.Unranged ∧ after = m := by
  intro tree resolve file specifier m after
  have hspecifiers : after.specifiers = m.specifiers := by decide +kernel
  have hmarks : after.marks = m.marks := by decide +kernel
  obtain ⟨-, -, hranges, hsame⟩ := relinkModule_marks_iff resolve file m (new {})
  exact ⟨hspecifiers, hranges.mp hmarks, (hsame hspecifiers).mpr (hranges.mp hmarks)⟩

/-- An import whose file is not there keeps its text, and is changed nevertheless: the string that
takes the place of its specifier lies where that one lay, but what it holds lies nowhere. -/
theorem forgetsRange_of_miss :
    let resolve := (Search.mk FileTree.empty.store true).resolver
    let file := Path.ofText "/p/x.ts"
    let m := ModuleTree.mk ⟨0, 24⟩ [.importing ⟨⟨0, 24⟩, ⟨0, 24⟩⟩
      ⟨false, some "a", none, .string ⟨⟨14, 22⟩, ⟨15, 21⟩⟩ "./gone"⟩]
    let after := ((new {}).relinkModule resolve file m).1
    ((new {}).relink resolve file.containingDir "./gone").1 = .miss "./gone" ∧
      after.specifiers = m.specifiers ∧ after.marks ≠ m.marks ∧ after ≠ m := by
  intro resolve file m after
  have hmarks : after.marks ≠ m.marks := by decide +kernel
  exact ⟨by decide +kernel, by decide +kernel, hmarks, fun e => hmarks (congrArg ModuleTree.marks e)⟩

end Relink.Session
