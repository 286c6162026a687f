import Relink.Proofs.Session.Schedule
import Relink.Proofs.Session.Substitution

/-!
# Failures stay where they are

Take two resolvers that differ in this alone: for some pairs of a directory and a specifier, the second
one finds no file. `rewrite_module` then does the same as before for all other pairs. `Isolates` relates
two sessions that have done the same with the one and with the other. They give the same for every pair
outside and keep the specifier of every pair inside, and neither can be told from the other by what it
has counted and what pairs it knows.

Results:
* `Isolates.relink`, `Isolates.relinkEach`, `Isolates.relinkModule`: one look-up, many, and a module.
* `Isolates.relinkModules`: modules one after another.
* `relinkModules_isolated`: two new sessions.
-/

namespace Relink

/-- Two spellings of one path are told from another path alike. -/
theorem Path.Same.decide_eq {p q : Path} (h : p.Same q) (d : Path) :
    decide (p.Same d) = decide (q.Same d) :=
  decide_eq_decide.mpr ⟨fun hp => h.symm.trans hp, fun hq => h.trans hq⟩

/-- `resolve'` finds no file for the pairs in `cut` and answers all others as `resolve` does. How the
directory of a pair is spelled makes no difference to its being in `cut`. -/
structure Resolver.FailsOn (cut : Path → String → Bool) (resolve resolve' : Resolver) : Prop where
  same : ∀ {dir dir' : Path}, dir.Same dir' → ∀ specifier, cut dir specifier = cut dir' specifier
  agrees : ∀ dir specifier extensions, cut dir specifier = false →
    resolve' dir specifier extensions = resolve dir specifier extensions
  fails : ∀ dir specifier extensions p, cut dir specifier = true →
    resolve' dir specifier extensions = .ok p → p.isAbsolute = false

variable {cut : Path → String → Bool} {resolve resolve' : Resolver}

/-- A resolver that has lost the files of the pairs in `cut`. -/
theorem Resolver.failsOn_of_lost {answer : Path}
    (same : ∀ {dir dir' : Path}, dir.Same dir' → ∀ specifier, cut dir specifier = cut dir' specifier)
    (hrel : answer.isAbsolute = false) :
    resolve.FailsOn cut fun dir specifier extensions =>
      if cut dir specifier then .ok answer else resolve dir specifier extensions where
  same := same
  agrees dir specifier extensions hcut := if_neg (by rw [hcut]; exact Bool.false_ne_true)
  fails dir specifier extensions p hcut hanswer := by
    rw [if_pos hcut] at hanswer
    cases hanswer
    exact hrel

/-- A pair in `cut` keeps its specifier, and any other becomes what it becomes with `resolve`. -/
theorem Resolver.FailsOn.replacement_eq (h : resolve.FailsOn cut resolve')
    (table : Extension.Table) (dir : Path) (specifier : String) :
    resolve'.replacement table dir specifier =
      if cut dir specifier then .miss specifier else resolve.replacement table dir specifier := by
  cases hcut : cut dir specifier with
  | false =>
    unfold Resolver.replacement
    rw [h.agrees dir specifier table.sources hcut]
    rfl
  | true =>
    cases hanswer : resolve' dir specifier table.sources with
    | error fault => exact Resolver.replacement_of_error hanswer
    | ok p =>
      exact Resolver.replacement_of_not_isAbsolute hanswer (h.fails _ _ _ p hcut hanswer)

namespace Session

variable {s s' t t' : Session}

/-- Two sessions give the same, but for the pairs in `cut`, for which the second one keeps the
specifier. They know the same pairs and have found as many of them known. -/
structure Isolates (cut : Path → String → Bool) (resolve resolve' : Resolver) (s s' : Session) :
    Prop where
  replacement_eq : ∀ dir specifier, s'.replacement resolve' dir specifier =
    if cut dir specifier then .miss specifier else s.replacement resolve dir specifier
  keys_eq : s'.cache.keys = s.cache.keys
  hits_eq : s'.cache.hits = s.cache.hits
  relinked_eq : s'.relinked = s.relinked

theorem isolates_new (h : resolve.FailsOn cut resolve') (options : Options) :
    Isolates cut resolve resolve' (new options) (new options) where
  replacement_eq dir specifier := by
    rw [replacement_new, replacement_new, h.replacement_eq]
  keys_eq := rfl
  hits_eq := rfl
  relinked_eq := rfl

namespace Isolates

/-- The relation does not look at the logs. -/
theorem of_trimmed (h : s.trimmed = t.trimmed) (h' : s'.trimmed = t'.trimmed)
    (hs : Isolates cut resolve resolve' s s') : Isolates cut resolve resolve' t t' := by
  have hall : Isolates cut resolve resolve' s.trimmed s'.trimmed := { hs with }
  rw [h, h'] at hall
  exact { hall with }

/-- **One look-up** in both sessions. -/
theorem relink (h : resolve.FailsOn cut resolve') (hs : Isolates cut resolve resolve' s s')
    (dir : Path) (specifier : String) :
    Isolates cut resolve resolve' (s.relink resolve dir specifier).2
      (s'.relink resolve' dir specifier).2 where
  replacement_eq d sp := by
    rw [replacement_relink, replacement_relink]
    split
    · next hkey =>
      obtain ⟨hdir, rfl⟩ := Cache.Key.mk.inj hkey
      rw [hs.replacement_eq, h.same hdir]
    · exact hs.replacement_eq d sp
  keys_eq := by
    rw [relink_eq, relink_eq]
    dsimp only
    rw [Cache.keys_fetch, Cache.keys_fetch, hs.keys_eq]
  hits_eq := by
    rw [relink_eq, relink_eq]
    dsimp only
    rw [Cache.hits_fetch, Cache.hits_fetch, hs.keys_eq, hs.hits_eq]
  relinked_eq := by
    rw [relink_eq, relink_eq]
    exact congrArg (· + 1) hs.relinked_eq

/-- **Many look-ups**, one after another, in both sessions. -/
theorem relinkEach (h : resolve.FailsOn cut resolve') (hs : Isolates cut resolve resolve' s s')
    (requests : List (Path × String)) :
    Isolates cut resolve resolve' (s.relinkEach resolve requests).2
      (s'.relinkEach resolve' requests).2 := by
  induction requests generalizing s s' with
  | nil => exact hs
  | cons q rest ih => exact ih (hs.relink h q.1 q.2)

/-- **A module** comes out alike in both sessions, with its own specifiers for the pairs in `cut`. -/
theorem relinkModule (h : resolve.FailsOn cut resolve') (hs : Isolates cut resolve resolve' s s')
    (file : Path) (m : ModuleTree) :
    (s'.relinkModule resolve' file m).1 =
        m.restore (cut file.containingDir) (s.relinkModule resolve file m).1 ∧
      Isolates cut resolve resolve' (s.relinkModule resolve file m).2
        (s'.relinkModule resolve' file m).2 := by
  constructor
  · rw [relinkModule_eq_substitute, relinkModule_eq_substitute, ModuleTree.restore_substitute]
    refine congrArg (fun f => m.substitute f) (funext fun v => ?_)
    rw [hs.replacement_eq]
    split <;> rfl
  · exact (hs.relinkEach h (m.requests file)).of_trimmed
      (relinkModule_follows resolve file m s).2.symm (relinkModule_follows resolve' file m s').2.symm

/-- **Modules**, one after another, in both sessions. -/
theorem relinkModules (h : resolve.FailsOn cut resolve') (hs : Isolates cut resolve resolve' s s')
    (modules : List (Path × ModuleTree)) :
    (s'.relinkModules resolve' modules).1 =
        List.zipWith (fun m after => m.2.restore (cut m.1.containingDir) after) modules
          (s.relinkModules resolve modules).1 ∧
      Isolates cut resolve resolve' (s.relinkModules resolve modules).2
        (s'.relinkModules resolve' modules).2 := by
  induction modules generalizing s s' with
  | nil => exact ⟨rfl, hs⟩
  | cons m rest ih =>
    obtain ⟨htree, hnext⟩ := hs.relinkModule h m.1 m.2
    obtain ⟨hrest, hlast⟩ := ih hnext
    exact ⟨congr (congrArg List.cons htree) hrest, hlast⟩

end Isolates

/-- **Failures stay where they are.** For any options and modules, and two resolvers that differ in not
finding files for some pairs: relinked in a new session with each, the modules come out alike, but for
the specifiers that can be completed and whose pairs are among those, which stay as they were. Both
sessions have relinked as many specifiers, have found as many known, and know the same pairs. -/
theorem relinkModules_isolated (options : Options) (h : resolve.FailsOn cut resolve')
    (modules : List (Path × ModuleTree)) :
    let run (resolve : Resolver) := (new options).relinkModules resolve modules
    ((run resolve).1.length = modules.length ∧
        (run resolve').1 = List.zipWith
          (fun m after => m.2.restore (cut m.1.containingDir) after) modules (run resolve).1) ∧
      (run resolve').2.stats.relinked = (run resolve).2.stats.relinked ∧
      (run resolve').2.stats.cacheHits = (run resolve).2.stats.cacheHits ∧
      (run resolve').2.cache.keys = (run resolve).2.cache.keys := by
  intro run
  obtain ⟨htrees, hlast⟩ := (isolates_new h options).relinkModules h modules
  exact ⟨⟨length_carry _ modules _, htrees⟩, hlast.relinked_eq, hlast.hits_eq, hlast.keys_eq⟩

/-- A file that gets lost for three declarations of two modules, in one directory that is spelled in two
ways. The same specifier in another directory is not affected. -/
theorem relinkModules_isolated_of_lost :
    let resolve : Resolver := fun dir specifier _ => .ok (dir.join (Path.ofText (specifier ++ ".ts")))
    let cut (dir : Path) (specifier : String) : Bool :=
      decide (dir.Same (Path.ofText "/p")) && specifier == "./a"
    let resolve' : Resolver := fun dir specifier extensions =>
      if cut dir specifier then .ok (Path.ofText "a.ts") else resolve dir specifier extensions
    let importOf (text : String) := Stmt.importing {} ⟨false, none, none, .string {} text⟩
    let modules := [
      (Path.ofText "/p/x.ts", ModuleTree.mk {}
        [importOf "./a", .scope {} .block [importOf "./b", importOf "./a"]]),
      (Path.ofText "/p/./y.ts", ModuleTree.mk {} [importOf "./a"]),
      (Path.ofText "/q/z.ts", ModuleTree.mk {} [importOf "./a"])]
    let run (resolve : Resolver) := (new {}).relinkModules resolve modules
    resolve.FailsOn cut resolve' ∧
      (run resolve).1.map ModuleTree.specifiers =
        [["./a.js", "./b.js", "./a.js"], ["./a.js"], ["./a.js"]] ∧
      (run resolve').1.map ModuleTree.specifiers = [["./a", "./b.js", "./a"], ["./a"], ["./a.js"]] ∧
      (run resolve').2.stats.relinked = 5 ∧ (run resolve').2.stats.cacheHits = 2 ∧
      (run resolve').2.cache.keys.map Cache.Key.specifier = ["./a", "./b", "./a"] := by
  intro resolve cut resolve' importOf modules run
  have hfails : resolve.FailsOn cut resolve' := by
    refine Resolver.failsOn_of_lost (fun {dir dir'} hdir specifier => ?_) (by decide)
    exact congrArg (fun b => b && specifier == "./a") (hdir.decide_eq (Path.ofText "/p"))
  obtain ⟨⟨-, htrees⟩, hrelinked, hhits, hkeys⟩ := relinkModules_isolated {} hfails modules
  refine ⟨hfails, by decide +kernel, ?_, ?_, ?_, ?_⟩
  · exact (congrArg (List.map ModuleTree.specifiers) htrees).trans (by decide +kernel)
  · exact hrelinked.trans (by decide +kernel)
  · exact hhits.trans (by decide +kernel)
  · dsimp only [run] at hkeys ⊢
    rw [hkeys]
    decide +kernel

end Session

end Relink
