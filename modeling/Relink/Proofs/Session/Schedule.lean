import Relink.Files.Tree
import Relink.Proofs.Session.History

/-!
# Independence of scheduling

Modules may be relinked (`rewrite_module`) in one session or in several, and in any order. As long as
the files stay as they are, this makes no difference to what becomes of a module and to what is counted
in all, and within one session not even to what is remembered.

Results:
* `After.relinkModules`: a session relinks each module as a new one does.
* `total_relinkModules`: what several sessions count is what all their requests together give.
* `relinkModules_independent`: all of it for any two schedules of the same modules.
-/

namespace Relink.Session

variable {resolve : Resolver} {table : Extension.Table} {s : Session}

/-- Relinks modules, each with its file, one after another. -/
def relinkModules (resolve : Resolver) (modules : List (Path × ModuleTree)) (s : Session) :
    List ModuleTree × Session :=
  carry (fun m s => s.relinkModule resolve m.1 m.2) modules s

/-- What is looked up for modules, one after another. -/
def requestsOf (modules : List (Path × ModuleTree)) : List (Path × String) :=
  modules.flatMap fun m => m.2.requests m.1

/-- What a new session makes of a module on its own. -/
def relinkAlone (resolve : Resolver) (options : Options) (m : Path × ModuleTree) : ModuleTree :=
  ((new options).relinkModule resolve m.1 m.2).1

/-- **A session relinks each module as a new one does**, and adds its requests to the history. -/
theorem After.relinkModules {options : Options} {requests : List (Path × String)}
    (hsteady : resolve.Steady options.table) (hs : After resolve options.table requests s)
    (modules : List (Path × ModuleTree)) :
    (s.relinkModules resolve modules).1 = modules.map (relinkAlone resolve options) ∧
      After resolve options.table (requests ++ requestsOf modules)
        (s.relinkModules resolve modules).2 := by
  induction modules generalizing requests s with
  | nil =>
    refine ⟨rfl, ?_⟩
    rw [show requestsOf [] = [] from rfl, List.append_nil]
    exact hs
  | cons m rest ih =>
    obtain ⟨htree, hnext⟩ := hs.relinkModule hsteady m.1 m.2
    obtain ⟨halone, -⟩ := (after_new resolve options).relinkModule hsteady m.1 m.2
    obtain ⟨hrest, hlast⟩ := ih hnext
    rw [List.append_assoc] at hlast
    refine ⟨?_, hlast⟩
    rw [List.map_cons, relinkAlone, halone, ← htree, ← hrest]
    rfl

/-- What several sessions count in all. -/
def total (count : Stats → Nat) : List Session → Nat
  | [] => 0
  | s :: rest => count s.stats + total count rest

/-- What several new sessions count in all is what all their requests together give. -/
theorem total_relinkModules {options : Options} (count : Stats → Nat) (p : Path × String → Bool)
    (hcount : ∀ modules, count ((new options).relinkModules resolve modules).2.stats =
      (requestsOf modules).countP p)
    (schedule : List (List (Path × ModuleTree))) :
    total count (schedule.map fun modules => ((new options).relinkModules resolve modules).2) =
      (requestsOf schedule.flatten).countP p := by
  induction schedule with
  | nil => rfl
  | cons modules rest ih =>
    have happend : requestsOf (modules ++ rest.flatten) =
        requestsOf modules ++ requestsOf rest.flatten := List.flatMap_append
    rw [List.map_cons, total, ih, hcount, List.flatten_cons, happend, List.countP_append]

/-- **Scheduling makes no difference.** For any search in files that stay as they are, any options and
any two schedules of the same modules, a schedule being a list of sessions with the modules of each:
every module comes out as from a new session on its own, both schedules relink, change and miss as
many specifiers in all, and the order within one session has no influence on its hits, on the size of
its cache or on any replacement in it. -/
theorem relinkModules_independent (search : Search) (options : Options)
    (schedule schedule' : List (List (Path × ModuleTree)))
    (h : schedule.flatten.Perm schedule'.flatten) :
    let run (modules : List (Path × ModuleTree)) :=
      (new options).relinkModules search.resolver modules
    let sessions (schedule : List (List (Path × ModuleTree))) :=
      schedule.map fun modules => (run modules).2
    (∀ modules ∈ schedule,
        (run modules).1 = modules.map (relinkAlone search.resolver options)) ∧
      (total Stats.relinked (sessions schedule) = total Stats.relinked (sessions schedule') ∧
        total Stats.changed (sessions schedule) = total Stats.changed (sessions schedule') ∧
        total Stats.misses (sessions schedule) = total Stats.misses (sessions schedule')) ∧
      ∀ modules modules' : List (Path × ModuleTree), modules.Perm modules' →
        (run modules).2.stats.cacheHits = (run modules').2.stats.cacheHits ∧
          (run modules).2.cache.size = (run modules').2.cache.size ∧
          ∀ dir specifier, (run modules).2.cache.get? dir specifier =
            (run modules').2.cache.get? dir specifier := by
  intro run sessions
  have hrun (modules : List (Path × ModuleTree)) :=
    (after_new search.resolver options).relinkModules (search.steady options.table) modules
  have hperm {modules modules' : List (Path × ModuleTree)} (hm : modules.Perm modules') :
      (requestsOf modules).Perm (requestsOf modules') := hm.flatMap_right _
  have htotal (count : Stats → Nat) (p : Path × String → Bool)
      (hcount : ∀ modules, count (run modules).2.stats = (requestsOf modules).countP p) :
      total count (sessions schedule) = total count (sessions schedule') := by
    have hsum := total_relinkModules count p hcount
    exact ((hsum schedule).trans ((hperm h).countP_eq p)).trans (hsum schedule').symm
  refine ⟨fun modules _ => (hrun modules).1, ⟨?_, ?_, ?_⟩, fun modules modules' hm => ?_⟩
  · refine htotal Stats.relinked (fun _ => true) fun modules => ?_
    rw [List.countP_true]
    exact (hrun modules).2.relinked_eq
  · exact htotal Stats.changed _ fun modules => (hrun modules).2.changed_eq
  · exact htotal Stats.misses _ fun modules => (hrun modules).2.misses_eq
  · obtain ⟨hstats, hsize, hget⟩ := (hrun modules).2.perm (hrun modules').2 (hperm hm)
    exact ⟨congrArg Stats.cacheHits hstats, hsize, hget⟩

/-- Two modules in one directory, spelled in two ways, that name the same file: together they find its
replacement in the cache once, whichever comes first, and apart they count as many in all. -/
theorem relinkModules_independent_of_two :
    let search : Search := ⟨(FileTree.empty.insert (Path.ofText "/p/a.ts") "").store, true⟩
    let literal := Expr.string {} "./a"
    let one := (Path.ofText "/p/x.ts",
      ModuleTree.mk {} [.importing {} ⟨false, none, none, literal⟩])
    let two := (Path.ofText "/p/./y.ts",
      ModuleTree.mk {} [.scope {} .block [.exporting {} ⟨false, .all none, some literal⟩]])
    let run (modules : List (Path × ModuleTree)) :=
      (new {}).relinkModules search.resolver modules
    [[one, two]].flatten.Perm [[two], [one]].flatten ∧
      total Stats.changed [(run [one, two]).2] = 2 ∧
      total Stats.changed [(run [two]).2, (run [one]).2] = 2 ∧
      (run [one, two]).2.stats.cacheHits = 1 ∧ (run [two, one]).2.stats.cacheHits = 1 := by
  intro search literal one two run
  have hperm : [one, two].Perm [two, one] := List.Perm.swap two one []
  have htotal : total Stats.changed [(run [one, two]).2] = 2 := by decide +kernel
  have hhits : (run [one, two]).2.stats.cacheHits = 1 := by decide +kernel
  obtain ⟨-, ⟨-, hchanged, -⟩, hsession⟩ :=
    relinkModules_independent search {} [[one, two]] [[two], [one]] hperm
  have hsame := (hsession [one, two] [two, one] hperm).1
  exact ⟨hperm, htotal, hchanged.symm.trans htotal, hhits, hsame.symm.trans hhits⟩

end Relink.Session
