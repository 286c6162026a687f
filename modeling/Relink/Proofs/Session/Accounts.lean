import Relink.Proofs.Session.FirstAnswer

/-!
# The accounts of a session

A session counts in three places (`SessionStats`) and its cache in two more, each on a branch of its
own. `Accounts` says what all of them come to over a history of relinkings: which specifiers were
relinked, in which directories, and what the session gave for each. It speaks of no resolver, so it
holds of whatever resolvers the steps of a session meet.

Results:
* `Accounts.relink`, `Accounts.relinkEach`: one look-up, and many.
* `Accounts.perform`, `Accounts.performAll`: one step of a run, and all.
* `relinked_relinkModule`: a module adds its specifiers that can be completed.
* `performAll_counts`: the accounts of every session that can be reached.
-/

namespace Relink

/-- Without repetitions, a list made longer by one entry is longer if the entry is new. -/
theorem eraseDups_concat {α : Type} [DecidableEq α] (xs : List α) (x : α) :
    (xs ++ [x]).eraseDups = if x ∈ xs then xs.eraseDups else xs.eraseDups ++ [x] := by
  rw [List.eraseDups_append]
  unfold List.removeAll
  split
  · next h => rw [List.filter_cons_of_neg (by simpa using h)]; exact List.append_nil _
  · next h => rw [List.filter_cons_of_pos (by simpa using h)]; rfl

namespace Cache

variable (c : Cache) (dir : Path) (specifier : String) (compute : Unit → Replacement)

/-- Each pair that is worked out is counted once. -/
theorem misses_fetch (h : c.misses = c.size) :
    (c.fetch dir specifier compute).2.misses = (c.fetch dir specifier compute).2.size := by
  unfold fetch
  cases c.get? dir specifier with
  | none => simp [store, size] at h ⊢; exact h
  | some r => exact h

end Cache

namespace Session

/-! ## Relinkings -/

/-- A specifier that was relinked in a directory, and what the session gave for it. -/
structure Relinking where
  dir : Path
  specifier : String
  given : Replacement

namespace Relinking

/-- What the cache knows the relinking by. -/
def key (r : Relinking) : Cache.Key :=
  Cache.keyOf r.dir r.specifier

/-- No file was found, then or when the pair was first looked up. -/
def isMiss (r : Relinking) : Bool :=
  r.given.isMiss

/-- A file was found, under another specifier. -/
def isChange (r : Relinking) : Bool :=
  !r.given.isMiss && r.given.specifier != r.specifier

end Relinking

/-- What a step looks up, in order. -/
def Step.requests : Step → List (Path × String)
  | .relink dir specifier => [(dir, specifier)]
  | .relinkModule file m => m.requests file

/-- The relinkings of these requests, one after another. -/
def relinkings (resolve : Resolver) (requests : List (Path × String)) (s : Session) :
    List Relinking :=
  List.zipWith (fun q r => ⟨q.1, q.2, r⟩) requests (s.relinkEach resolve requests).1

/-- The relinkings of steps, one after another, each with the resolver as it is then. -/
def relinkingsOf : List (Resolver × Step) → Session → List Relinking
  | [], _ => []
  | step :: rest, s =>
    s.relinkings step.1 step.2.requests ++ relinkingsOf rest (perform step.1 step.2 s).2

/-- A step leaves the session as relinking its requests does. -/
theorem trimmed_perform (resolve : Resolver) (step : Step) (s : Session) :
    (perform resolve step s).2.trimmed = (s.relinkEach resolve step.requests).2.trimmed := by
  cases step with
  | relink dir specifier => rfl
  | relinkModule file m => exact (relinkModule_follows resolve file m s).2

/-- Every request is relinked, in order. -/
theorem requests_relinkings (resolve : Resolver) (requests : List (Path × String)) (s : Session) :
    (s.relinkings resolve requests).map (fun r => (r.dir, r.specifier)) = requests := by
  induction requests generalizing s with
  | nil => rfl
  | cons q rest ih => exact congrArg (q :: ·) (ih (s.relink resolve q.1 q.2).2)

/-- Every relinking gives what the session gives by then. -/
theorem given_relinkings (resolve : Resolver) (requests : List (Path × String)) (s : Session) :
    (s.relinkings resolve requests).map Relinking.given = (s.relinkEach resolve requests).1 := by
  induction requests generalizing s with
  | nil => rfl
  | cons q rest ih => exact congrArg (_ :: ·) (ih (s.relink resolve q.1 q.2).2)

theorem requests_relinkingsOf (steps : List (Resolver × Step)) (s : Session) :
    (s.relinkingsOf steps).map (fun r => (r.dir, r.specifier)) =
      steps.flatMap fun step => step.2.requests := by
  induction steps generalizing s with
  | nil => rfl
  | cons step rest ih =>
    rw [relinkingsOf, List.map_append, requests_relinkings, ih, List.flatMap_cons]

/-- A look-up shows by one event. -/
theorem length_filter_eventsOf (resolve : Resolver) (dir : Path) (specifier : String)
    (s : Session) :
    ((s.eventsOf resolve dir specifier).filter Event.ofLookup).length = 1 := by
  unfold eventsOf
  cases s.cache.get? dir specifier with
  | some r => rfl
  | none => exact congrArg (List.length <| _ :: ·) (Event.filter_ofAnswer _ _ _)

/-! ## What the counts come to -/

variable {done : List Relinking} {s s' : Session}

/-- The counts of a session that was new and has done these relinkings, and the pairs it knows. -/
structure Accounts (done : List Relinking) (s : Session) : Prop where
  relinked_eq : s.relinked = done.length
  misses_eq : s.misses = done.countP Relinking.isMiss
  changed_eq : s.changed = done.countP Relinking.isChange
  hits_add_size : s.cache.hits + s.cache.size = done.length
  misses_eq_size : s.cache.misses = s.cache.size
  keys_eq : s.cache.keys = (done.map Relinking.key).eraseDups
  events_eq : (s.log.filter Event.ofLookup).length = done.length

theorem accounts_new (options : Options) : Accounts [] (new options) :=
  ⟨rfl, rfl, rfl, rfl, rfl, rfl, rfl⟩

namespace Accounts

/-- Records of walks are not counted. -/
theorem of_trimmed (h : s.trimmed = s'.trimmed) (hs : Accounts done s) : Accounts done s' := by
  have hall : Accounts done s.trimmed :=
    { hs with events_eq := by rw [filter_trimmed, hs.events_eq] }
  rw [h] at hall
  exact { hall with events_eq := by rw [← filter_trimmed, hall.events_eq] }

/-- **One look-up** is entered into the accounts. -/
theorem relink (hs : Accounts done s) (resolve : Resolver) (dir : Path) (specifier : String) :
    Accounts (done ++ [⟨dir, specifier, (s.relink resolve dir specifier).1⟩])
      (s.relink resolve dir specifier).2 := by
  rw [relink_eq]
  refine ⟨?_, ?_, ?_, ?_, ?_, ?_, ?_⟩
  · rw [List.length_append, ← hs.relinked_eq]
    rfl
  · rw [List.countP_append, List.countP_singleton, ← hs.misses_eq]
    rfl
  · rw [List.countP_append, List.countP_singleton, ← hs.changed_eq]
    rfl
  · rw [Cache.hits_add_size_fetch, hs.hits_add_size, List.length_append]
    rfl
  · exact s.cache.misses_fetch dir specifier _ hs.misses_eq_size
  · rw [Cache.keys_fetch, hs.keys_eq, List.map_append, List.map_singleton, eraseDups_concat]
    simp only [List.mem_eraseDups]
    rfl
  · rw [List.filter_append, List.length_append, hs.events_eq, length_filter_eventsOf,
      List.length_append]
    rfl

/-- **Many look-ups**, one after another. -/
theorem relinkEach (hs : Accounts done s) (resolve : Resolver)
    (requests : List (Path × String)) :
    Accounts (done ++ s.relinkings resolve requests) (s.relinkEach resolve requests).2 := by
  induction requests generalizing done s with
  | nil => exact (List.append_nil done).symm ▸ hs
  | cons q rest ih =>
    have hlast := ih (hs.relink resolve q.1 q.2)
    rw [List.append_assoc] at hlast
    exact hlast

/-- **One step** enters what it looks up. -/
theorem perform (hs : Accounts done s) (resolve : Resolver) (step : Step) :
    Accounts (done ++ s.relinkings resolve step.requests) (perform resolve step s).2 :=
  (hs.relinkEach resolve step.requests).of_trimmed (trimmed_perform resolve step s).symm

/-- **All steps** of a run, one after another. -/
theorem performAll (hs : Accounts done s) (steps : List (Resolver × Step)) :
    Accounts (done ++ s.relinkingsOf steps) (performAll steps s).2 := by
  induction steps generalizing done s with
  | nil => exact (List.append_nil done).symm ▸ hs
  | cons step rest ih =>
    have hlast := ih (hs.perform step.1 step.2)
    rw [List.append_assoc] at hlast
    exact hlast

end Accounts

theorem relinked_relinkEach (resolve : Resolver) (requests : List (Path × String)) (s : Session) :
    (s.relinkEach resolve requests).2.relinked = s.relinked + requests.length := by
  induction requests generalizing s with
  | nil => rfl
  | cons q rest ih =>
    have hone : (s.relink resolve q.1 q.2).2.relinked = s.relinked + 1 := by rw [relink_eq]
    refine (ih (s.relink resolve q.1 q.2).2).trans ?_
    rw [hone, List.length_cons, Nat.add_assoc, Nat.add_comm 1]

/-- **A module adds its specifiers that can be completed**, for any session, and comes out with what
was given for them. -/
theorem relinked_relinkModule (resolve : Resolver) (file : Path) (m : ModuleTree) (s : Session) :
    (s.relinkModule resolve file m).1 =
        m.exchange ((s.relinkings resolve (m.requests file)).map (·.given.specifier)) ∧
      (s.relinkModule resolve file m).2.relinked =
        s.relinked + m.specifiers.countP Specifier.isCompletable := by
  obtain ⟨htree, hst⟩ := relinkModule_follows resolve file m s
  constructor
  · rw [htree, ← given_relinkings, List.map_map]
    rfl
  · have hlength : (m.requests file).length = m.specifiers.countP Specifier.isCompletable := by
      rw [ModuleTree.requests, Specifier.requests, List.length_map, List.countP_eq_length_filter]
    have hcount : (s.relinkModule resolve file m).2.relinked =
        (s.relinkEach resolve (m.requests file)).2.relinked :=
      (congrArg Session.relinked hst :)
    rw [hcount, relinked_relinkEach, hlength]

/-- **The counts of a session are those of its history.** For any options and any steps of a new
session, each with whatever resolver there is by then: the session has relinked as many specifiers as
the steps look up, as there are look-ups in the log, and as there are hits and misses of the cache in
all. The cache missed once for each pair it knows, and it knows the pairs looked up, each once. The
session's hits are those of the cache, its misses the relinkings that gave a miss, known ones included,
and its changes those that gave a file under another specifier. A module that is relinked next is
counted by its specifiers that can be completed. -/
theorem performAll_counts (options : Options) (steps : List (Resolver × Step)) :
    let done := (new options).relinkingsOf steps
    let last := ((new options).performAll steps).2
    (last.stats.relinked = done.length ∧
        done.map (fun r => (r.dir, r.specifier)) = steps.flatMap (fun step => step.2.requests) ∧
        (last.log.filter Event.ofLookup).length = done.length ∧
        last.cache.hits + last.cache.misses = done.length) ∧
      (last.cache.misses = last.cache.size ∧
        last.cache.size = (done.map Relinking.key).eraseDups.length ∧
        last.cache.keys = (done.map Relinking.key).eraseDups) ∧
      (last.stats.cacheHits = last.cache.hits ∧
        last.stats.misses = done.countP Relinking.isMiss ∧
        last.stats.changed = done.countP Relinking.isChange) ∧
      ∀ resolve file m,
        (last.relinkModule resolve file m).1 =
            m.exchange ((last.relinkings resolve (m.requests file)).map (·.given.specifier)) ∧
          (last.relinkModule resolve file m).2.stats.relinked =
            last.stats.relinked + m.specifiers.countP Specifier.isCompletable := by
  intro done last
  have hlast : Accounts done last := (accounts_new options).performAll steps
  have hsize : last.cache.size = (done.map Relinking.key).eraseDups.length := by
    rw [← hlast.keys_eq, Cache.keys, List.length_map]
    rfl
  refine ⟨⟨hlast.relinked_eq, requests_relinkingsOf steps _, hlast.events_eq, ?_⟩,
    ⟨hlast.misses_eq_size, hsize, hlast.keys_eq⟩, ⟨rfl, hlast.misses_eq, hlast.changed_eq⟩,
    fun resolve file m => relinked_relinkModule resolve file m last⟩
  rw [hlast.misses_eq_size, hlast.hits_add_size]

end Session

end Relink
