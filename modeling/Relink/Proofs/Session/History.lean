import Relink.Proofs.Resolve.Candidates
import Relink.Proofs.Session.Frame

/-!
# What a session knows of its history

While the files stay as they are, a session that remembers (`ResolutionCache`) answers as one that does
not. `After` is the invariant behind that: it says what is known, counted and remembered after a list of
requests, and of their order it says nothing.

The cache knows directories by their components and the resolver sees how they are spelled, so this
needs a resolver that does not care (`Resolver.Steady`).

Results:
* `Search.replacement_congr`, `Search.steady`: the search in a file store is such a resolver.
* `After.relink`, `After.relinkEach`, `After.relinkModule`: one request, many, and a module.
* `After.perm`: the same requests in another order leave the same counts and the same knowledge.
-/

namespace Relink

/-! ## The cache -/

namespace Cache

/-- The pairs known, in the order in which they were worked out. -/
def keys (c : Cache) : List Key :=
  c.entries.map Prod.fst

variable (c : Cache)

theorem get?_isSome_iff (dir : Path) (specifier : String) :
    (c.get? dir specifier).isSome = true ↔ keyOf dir specifier ∈ c.keys := by
  unfold get? keys
  rw [Option.isSome_map, List.find?_isSome, List.mem_map]
  simp

theorem get?_eq_none_iff (dir : Path) (specifier : String) :
    c.get? dir specifier = none ↔ keyOf dir specifier ∉ c.keys := by
  rw [← get?_isSome_iff, Bool.not_eq_true, Option.isSome_eq_false_iff, Option.isNone_iff_eq_none]

theorem get?_congr {dir dir' : Path} {specifier specifier' : String}
    (h : keyOf dir specifier = keyOf dir' specifier') :
    c.get? dir specifier = c.get? dir' specifier' := by
  unfold get?
  rw [h]

variable (dir : Path) (specifier : String) (compute : Unit → Replacement)

theorem keys_fetch :
    (c.fetch dir specifier compute).2.keys =
      if keyOf dir specifier ∈ c.keys then c.keys else c.keys ++ [keyOf dir specifier] := by
  unfold fetch
  cases h : c.get? dir specifier with
  | none =>
    rw [if_neg ((c.get?_eq_none_iff dir specifier).mp h)]
    exact List.map_append
  | some r =>
    rw [if_pos ((c.get?_isSome_iff dir specifier).mp (by rw [h]; rfl))]
    rfl

theorem mem_keys_fetch (key : Key) :
    key ∈ (c.fetch dir specifier compute).2.keys ↔ key ∈ c.keys ∨ key = keyOf dir specifier := by
  rw [keys_fetch]
  split
  · next hknown => exact ⟨Or.inl, fun h => h.elim id fun e => e ▸ hknown⟩
  · rw [List.mem_append, List.mem_singleton]

theorem nodup_keys_fetch (h : c.keys.Nodup) : (c.fetch dir specifier compute).2.keys.Nodup := by
  rw [keys_fetch]
  split
  · exact h
  · next hnew =>
    rw [List.nodup_append]
    refine ⟨h, by simp, fun a ha b hb e => hnew ?_⟩
    rw [← List.mem_singleton.mp hb, ← e]
    exact ha

theorem fetch_fst :
    (c.fetch dir specifier compute).1 = (c.get? dir specifier).getD (compute ()) := by
  unfold fetch
  cases c.get? dir specifier <;> rfl

/-- A request is counted as found if its pair was known. -/
theorem hits_fetch :
    (c.fetch dir specifier compute).2.hits =
      if keyOf dir specifier ∈ c.keys then c.hits + 1 else c.hits := by
  unfold fetch
  cases h : c.get? dir specifier with
  | none => rw [if_neg ((c.get?_eq_none_iff dir specifier).mp h)]; rfl
  | some r => rw [if_pos ((c.get?_isSome_iff dir specifier).mp (by rw [h]; rfl))]; rfl

/-- Each request finds its replacement or adds it. -/
theorem hits_add_size_fetch :
    (c.fetch dir specifier compute).2.hits + (c.fetch dir specifier compute).2.size =
      c.hits + c.size + 1 := by
  unfold fetch
  cases c.get? dir specifier with
  | none => simp [store, size, Nat.add_assoc]
  | some r => simp [countHit, size]; omega

/-- After a request its replacement is known, and nothing else has changed. -/
theorem get?_fetch (d : Path) (sp : String) :
    (c.fetch dir specifier compute).2.get? d sp =
      if keyOf d sp = keyOf dir specifier then some (c.fetch dir specifier compute).1
      else c.get? d sp := by
  unfold fetch
  cases h : c.get? dir specifier with
  | none =>
    dsimp only
    split
    · next e => rw [get?_congr _ e, get?_store_self c _ h]
    · next e => exact get?_store_of_ne c _ e
  | some r =>
    dsimp only
    split
    · next e => rw [get?_countHit, get?_congr _ e, h]
    · rfl

end Cache

/-! ## Resolvers that read directories by where they lead -/

/-- Spellings of one directory make no difference to what becomes of a specifier. -/
def Resolver.Steady (resolve : Resolver) (table : Extension.Table) : Prop :=
  ∀ (dir dir' : Path) (specifier : String), dir.Same dir' →
    resolve.replacement table dir specifier = resolve.replacement table dir' specifier

/-- A relative specifier depends on where the directory leads. -/
theorem relativeSpecifier_congr {dir dir' : Path} (h : dir.route = dir'.route) (file : Path) :
    relativeSpecifier dir file = relativeSpecifier dir' file := by
  have hn : dir.normal = dir'.normal := congrArg Route.toPath h
  unfold relativeSpecifier Path.wayTo Path.waySegments
  rw [hn]

/-- What becomes of a specifier depends on where the directory leads, for a search in a file store. -/
theorem Search.replacement_congr (search : Search) (table : Extension.Table) {dir dir' : Path}
    (h : dir.route = dir'.route) (specifier : String) :
    search.resolver.replacement table dir specifier =
      search.resolver.replacement table dir' specifier := by
  unfold Resolver.replacement Search.resolver
  rw [Search.target_congr h]
  split
  · rfl
  · cases search.locate (target dir' specifier) (meansDirectory specifier) table.sources with
    | none => rfl
    | some found =>
      dsimp only [Resolution.ofAnswer]
      split
      · exact congrArg Replacement.resolved (relativeSpecifier_congr h _)
      · rfl

/-- The search in a file store reads directories by where they lead. -/
theorem Search.steady (search : Search) (table : Extension.Table) :
    search.resolver.Steady table :=
  fun _ _ specifier h => search.replacement_congr table (Path.route_eq_of_same h) specifier

/-- The request finds no file. -/
def Resolver.misses (resolve : Resolver) (table : Extension.Table) (request : Path × String) :
    Bool :=
  (resolve.replacement table request.1 request.2).isMiss

/-- The request finds a file under another specifier. -/
def Resolver.changes (resolve : Resolver) (table : Extension.Table) (request : Path × String) :
    Bool :=
  !resolve.misses table request &&
    (resolve.replacement table request.1 request.2).specifier != request.2

/-- What becomes of a specifier in a module: it is relinked if it can be completed. -/
def Resolver.relinked (resolve : Resolver) (table : Extension.Table) (dir : Path)
    (specifier : String) : String :=
  if Specifier.isCompletable specifier then (resolve.replacement table dir specifier).specifier
  else specifier

theorem Resolver.relinked_of_isCompletable (resolve : Resolver) (table : Extension.Table)
    (dir : Path) {specifier : String} (h : Specifier.isCompletable specifier = true) :
    resolve.relinked table dir specifier =
      (resolve.replacement table dir specifier).specifier := by
  simp [Resolver.relinked, h]

theorem Resolver.relinked_of_not_isCompletable (resolve : Resolver) (table : Extension.Table)
    (dir : Path) {specifier : String} (h : ¬ Specifier.isCompletable specifier = true) :
    resolve.relinked table dir specifier = specifier := by
  simp [Resolver.relinked, h]

/-! ## The state after a list of requests -/

namespace Session

variable {resolve : Resolver} {table : Extension.Table} {requests : List (Path × String)}
  {s s' : Session}

/-- What a session that was new is like after these requests. -/
structure After (resolve : Resolver) (table : Extension.Table) (requests : List (Path × String))
    (s : Session) : Prop where
  table_eq : s.table = table
  get?_eq : ∀ dir specifier r, s.cache.get? dir specifier = some r →
    r = resolve.replacement table dir specifier
  keys_nodup : s.cache.keys.Nodup
  mem_keys : ∀ key, key ∈ s.cache.keys ↔ key ∈ requests.map fun q => Cache.keyOf q.1 q.2
  hits_add_size : s.cache.hits + s.cache.size = requests.length
  relinked_eq : s.relinked = requests.length
  misses_eq : s.misses = requests.countP (resolve.misses table)
  changed_eq : s.changed = requests.countP (resolve.changes table)

theorem after_new (resolve : Resolver) (options : Options) :
    After resolve options.table [] (new options) where
  table_eq := rfl
  get?_eq _ _ _ h := by cases h
  keys_nodup := List.nodup_nil
  mem_keys _ := by simp [new, Cache.keys]
  hits_add_size := rfl
  relinked_eq := rfl
  misses_eq := rfl
  changed_eq := rfl

namespace After

/-- The invariant does not look at the log. -/
theorem of_trimmed (h : s.trimmed = s'.trimmed) (hs : After resolve table requests s) :
    After resolve table requests s' := by
  have hall : After resolve table requests s.trimmed := { hs with }
  rw [h] at hall
  exact { hall with }

/-- What is remembered is what would be worked out. -/
theorem replacement_eq (hs : After resolve table requests s) (dir : Path) (specifier : String) :
    s.replacement resolve dir specifier = resolve.replacement table dir specifier := by
  unfold Session.replacement
  cases h : s.cache.get? dir specifier with
  | none => rw [Option.getD_none, hs.table_eq]
  | some r => exact hs.get?_eq dir specifier r h

/-- **One request** is answered as by a session that remembers nothing, and is added to the
history. -/
theorem relink (hsteady : resolve.Steady table) (hs : After resolve table requests s) (dir : Path)
    (specifier : String) :
    (s.relink resolve dir specifier).1 = resolve.replacement table dir specifier ∧
      After resolve table (requests ++ [(dir, specifier)]) (s.relink resolve dir specifier).2 := by
  have hanswer := hs.replacement_eq dir specifier
  rw [relink_eq, hanswer]
  refine ⟨rfl, hs.table_eq, ?_, ?_, ?_, ?_, ?_, ?_, ?_⟩
  · intro d sp r h
    rw [Cache.get?_fetch] at h
    split at h
    · next e =>
      obtain ⟨hdir, rfl⟩ := Cache.Key.mk.inj e
      rw [Cache.fetch_fst] at h
      rw [hsteady d dir sp hdir, ← hanswer]
      exact (Option.some.inj h).symm
    · exact hs.get?_eq d sp r h
  · exact s.cache.nodup_keys_fetch dir specifier _ hs.keys_nodup
  · intro key
    rw [Cache.mem_keys_fetch, hs.mem_keys, List.map_append, List.mem_append, List.map_singleton,
      List.mem_singleton]
  · rw [Cache.hits_add_size_fetch, hs.hits_add_size, List.length_append]
    rfl
  · rw [hs.relinked_eq, List.length_append]
    rfl
  · rw [hs.misses_eq, List.countP_append, List.countP_singleton]
    rfl
  · rw [hs.changed_eq, List.countP_append, List.countP_singleton]
    rfl

/-- **Many requests**, one after another. -/
theorem relinkEach (hsteady : resolve.Steady table) (hs : After resolve table requests s)
    (more : List (Path × String)) :
    (s.relinkEach resolve more).1 = more.map (fun q => resolve.replacement table q.1 q.2) ∧
      After resolve table (requests ++ more) (s.relinkEach resolve more).2 := by
  induction more generalizing requests s with
  | nil =>
    rw [List.append_nil]
    exact ⟨rfl, hs⟩
  | cons q rest ih =>
    obtain ⟨hfirst, hnext⟩ := hs.relink hsteady q.1 q.2
    obtain ⟨hrest, hlast⟩ := ih hnext
    rw [List.append_assoc] at hlast
    refine ⟨?_, hlast⟩
    rw [List.map_cons, ← hfirst, ← hrest]
    rfl

/-- **A module** comes out as from a session that remembers nothing, and its requests are added to
the history. -/
theorem relinkModule (hsteady : resolve.Steady table) (hs : After resolve table requests s)
    (file : Path) (m : ModuleTree) :
    (s.relinkModule resolve file m).1 =
        m.exchange ((m.requests file).map fun q =>
          (resolve.replacement table q.1 q.2).specifier) ∧
      After resolve table (requests ++ m.requests file) (s.relinkModule resolve file m).2 := by
  obtain ⟨hanswers, hlast⟩ := hs.relinkEach hsteady (m.requests file)
  obtain ⟨htree, hst⟩ := relinkModule_follows resolve file m s
  refine ⟨?_, hlast.of_trimmed hst.symm⟩
  rw [htree, hanswers, List.map_map]
  rfl

/-- The specifiers of a module that a session has relinked, while the files stay as they are. -/
theorem specifiers_relinkModule (hsteady : resolve.Steady table)
    (hs : After resolve table requests s) (file : Path) (m : ModuleTree) :
    (s.relinkModule resolve file m).1.specifiers =
      m.specifiers.map (resolve.relinked table file.containingDir) := by
  obtain ⟨htree, -⟩ := hs.relinkModule hsteady file m
  rw [htree, ModuleTree.specifiers_exchange, ModuleTree.requests, Specifier.requests, List.map_map,
    Specifier.exchange_map]
  rfl

/-- **The same requests in another order** leave the same counts and the same knowledge. -/
theorem perm {requests' : List (Path × String)} (hs : After resolve table requests s)
    (hs' : After resolve table requests' s') (h : requests.Perm requests') :
    s.stats = s'.stats ∧ s.cache.size = s'.cache.size ∧
      ∀ dir specifier, s.cache.get? dir specifier = s'.cache.get? dir specifier := by
  have hmem (key : Cache.Key) : key ∈ s.cache.keys ↔ key ∈ s'.cache.keys := by
    rw [hs.mem_keys, hs'.mem_keys]
    exact (h.map _).mem_iff
  have hkeys : s.cache.keys.Perm s'.cache.keys :=
    (List.perm_ext_iff_of_nodup hs.keys_nodup hs'.keys_nodup).mpr hmem
  have hsize : s.cache.size = s'.cache.size := by
    have hlen := hkeys.length_eq
    unfold Cache.keys at hlen
    rwa [List.length_map, List.length_map] at hlen
  have hhits : s.cache.hits = s'.cache.hits := by
    have hsum := hs.hits_add_size
    have hsum' := hs'.hits_add_size
    have hlen := h.length_eq
    omega
  refine ⟨?_, hsize, fun dir specifier => ?_⟩
  · unfold stats
    rw [hs.relinked_eq, hs'.relinked_eq, hs.changed_eq, hs'.changed_eq, hs.misses_eq,
      hs'.misses_eq, h.length_eq, h.countP_eq, h.countP_eq, hhits]
  · have hsome : (s.cache.get? dir specifier).isSome = (s'.cache.get? dir specifier).isSome := by
      rw [Bool.eq_iff_iff, Cache.get?_isSome_iff, Cache.get?_isSome_iff, hmem]
    cases hr : s.cache.get? dir specifier with
    | none =>
      rw [hr] at hsome
      exact (Option.isNone_iff_eq_none.mp (Option.isSome_eq_false_iff.mp hsome.symm)).symm
    | some r =>
      rw [hr] at hsome
      obtain ⟨r', hr'⟩ := Option.isSome_iff_exists.mp hsome.symm
      rw [hr', hs.get?_eq dir specifier r hr, hs'.get?_eq dir specifier r' hr']

end After

end Session

end Relink
