import Relink.Proofs.Session.FirstAnswer
import Relink.Proofs.Tree.Visits

/-!
# The log of a run

What a session traces when it relinks modules (`rewrite_module`) can be told from the look-ups alone,
without a session: each module is opened, each of its look-ups leaves its trace, and the module is left.
The trace of a look-up depends on the look-ups before it, so `inTurn` tells everyone what came before.

The session counts on its own, and so does the log; `Tallied` says that they count alike.

Results:
* `Recalls.relinkNoted`, `Recalls.relinkModule`: the trace of one look-up, and that of a module.
* `Tallied.relinkNoted`, `Tallied.relinkModule`: the counts of the session are those of its log.
* `performAll_log`: the log of all modules of a run, and its counts.
-/

namespace Relink

variable {α β : Type}

/-- What the entries of a list give one after another, each told those before it. -/
def inTurn (f : List α → α → List β) : List α → List α → List β
  | _, [] => []
  | before, a :: rest => f before a ++ inTurn f (before ++ [a]) rest

/-- What is looked up for a module are the specifiers of its declarations that can be completed. -/
theorem ModuleTree.requests_eq (m : ModuleTree) (file : Path) :
    m.requests file = (m.statements.filterMap Stmt.completable?).map fun decl =>
      (file.containingDir, decl.specifier) := by
  have hspecifiers : m.specifiers.filter Specifier.isCompletable =
      (m.statements.filterMap Stmt.completable?).map Completable.specifier := by
    unfold specifiers
    rw [List.filter_filterMap, List.map_filterMap]
    exact congrArg (List.filterMap · m.statements)
      (funext fun s => (Stmt.map_specifier_completable? s).symm)
  rw [requests, Specifier.requests, hspecifiers, List.map_map]
  rfl

/-- A replacement is added to those known if it had to be worked out. -/
theorem Cache.countP_entries_fetch (c : Cache) (dir : Path) (specifier : String)
    (compute : Unit → Replacement) :
    (c.fetch dir specifier compute).2.entries.countP (·.2.isMiss) =
      c.entries.countP (·.2.isMiss) +
        if keyOf dir specifier ∈ c.keys then 0 else if (compute ()).isMiss then 1 else 0 := by
  unfold fetch
  cases h : c.get? dir specifier with
  | some r =>
    rw [if_pos ((c.get?_isSome_iff dir specifier).mp (by rw [h]; rfl))]
    rfl
  | none =>
    rw [if_neg ((c.get?_eq_none_iff dir specifier).mp h)]
    exact (List.countP_append ..).trans (congrArg (_ + ·) List.countP_singleton)

/-! ## Traces -/

namespace Lookup

/-- The events by which an answer to a look-up shows if it does not count. -/
def missEvents (table : Extension.Table) (l : Lookup) : List Event :=
  Event.ofAnswer l.dir l.specifier (l.resolve l.dir l.specifier table.sources)

/-- The trace of a look-up in a module after others: a hit if its pair was looked up before, else the
question and why its answer does not count; and then what is written in its place. -/
def trace (table : Extension.Table) (before : List Lookup) (l : Lookup) : List Event :=
  (match first? before l.key with
    | some _ => [.cacheHit l.dir l.specifier]
    | none => .asked l.dir l.specifier table.sources :: l.missEvents table) ++
    [.replacing l.specifier ((l.firstIn before).answer table).specifier]

/-- An answer that counts leaves nothing. One that does not leaves one debug record, which is neither
that of a hit nor that of a replacement. -/
theorem missEvents_cases (table : Extension.Table) (l : Lookup) :
    (l.missEvents table = [] ∧ (l.answer table).isMiss = false) ∨
      ∃ e record, l.missEvents table = [e] ∧ e.record? = some record ∧ record.level = .debug ∧
        record.text ≠ "resolution cache hit" ∧ record.text ≠ "rewriting specifier" ∧
        (l.answer table).isMiss = true := by
  unfold missEvents answer
  cases hanswer : l.resolve l.dir l.specifier table.sources with
  | error fault =>
    refine Or.inr ⟨.missed l.dir l.specifier fault, _, rfl, rfl, rfl, by simp, by simp, ?_⟩
    rw [Resolver.replacement_of_error hanswer]
    rfl
  | ok p =>
    cases hp : p.isAbsolute with
    | true =>
      refine Or.inl ⟨if_pos hp, ?_⟩
      rw [Resolver.replacement_of_isAbsolute hanswer hp]
      rfl
    | false =>
      refine Or.inr ⟨.relativeAnswer l.dir l.specifier p, _, if_neg (by simp [hp]), rfl, rfl,
        by simp, by simp, ?_⟩
      rw [Resolver.replacement_of_not_isAbsolute hanswer hp]
      rfl

end Lookup

namespace Session

/-- The relinking of a module, with the resolver as it is then. -/
structure Call where
  resolve : Resolver
  file : Path
  module : ModuleTree

namespace Call

/-- The relinking as a step of a run. -/
def step (c : Call) : Resolver × Step :=
  (c.resolve, .relinkModule c.file c.module)

/-- The look-ups of the module, in order. -/
def lookups (c : Call) : List Lookup :=
  c.step.2.lookups c.step.1

/-- The trace of the relinking after others. -/
def trace (table : Extension.Table) (before : List Call) (c : Call) : List Event :=
  .opened c.file :: .entered ::
    (inTurn (Lookup.trace table) (before.flatMap lookups) c.lookups ++ [.left])

end Call

/-! ## The walk -/

/-- Relinks a specifier and notes what is written in its place. -/
def relinkNoted (l : Lookup) (s : Session) : Session :=
  (s.relink l.resolve l.dir l.specifier).2.note
    (.replacing l.specifier (s.relink l.resolve l.dir l.specifier).1.specifier)

theorem log_relinkNoted (l : Lookup) (s : Session) :
    (s.relinkNoted l).log = s.log ++ (s.eventsOf l.resolve l.dir l.specifier ++
      [.replacing l.specifier (s.replacement l.resolve l.dir l.specifier).specifier]) := by
  unfold relinkNoted
  rw [relink_eq, ← List.append_assoc]
  rfl

theorem cache_relinkNoted (l : Lookup) (s : Session) :
    (s.relinkNoted l).cache = (s.cache.fetch l.dir l.specifier fun _ => l.answer s.table).2 := by
  unfold relinkNoted
  rw [relink_eq]
  rfl

theorem relinked_relinkNoted (l : Lookup) (s : Session) :
    (s.relinkNoted l).relinked = s.relinked + 1 := by
  unfold relinkNoted
  rw [relink_eq]
  rfl

/-- Relinks specifiers and notes what is written, one after another. -/
def relinkNotedAll (lookups : List Lookup) (s : Session) : Session :=
  lookups.foldl (fun s l => s.relinkNoted l) s

theorem flat_visit (resolve : Resolver) (dir : Path) : (visit resolve dir).Flat := by
  constructor
  · intro e kind body st
    rfl
  · intro s st answer h
    unfold visit at h
    split at h
    · cases h
    · next decl hdecl =>
      cases h
      exact Stmt.isLeaf_withSpecifier (Stmt.isLeaf_of_completable? hdecl) _

/-- To show statements to the visitor of a session is to relink the declarations among them that can
be completed. -/
theorem showAll_visit (resolve : Resolver) (dir : Path) (stmts : List Stmt) (s : Session) :
    (visit resolve dir).showAll stmts s =
      s.relinkNotedAll ((stmts.filterMap Stmt.completable?).map fun decl =>
        ⟨resolve, dir, decl.specifier⟩) := by
  unfold Visitor.showAll relinkNotedAll
  rw [List.foldl_map, List.foldl_filterMap]
  congr 1
  funext s stmt
  unfold visit
  cases stmt.completable? <;> rfl

/-- The session after a module: its look-ups have been made, between the events of the module. -/
theorem relinkModule_snd (c : Call) (s : Session) :
    (s.relinkModule c.resolve c.file c.module).2 =
      (((s.note (.opened c.file)).note .entered).relinkNotedAll c.lookups).note .left := by
  have hwalk := ModuleTree.state_walk (flat_visit c.resolve c.file.containingDir) c.module
    ((s.note (.opened c.file)).note .entered)
  have hlookups : c.lookups = (c.module.statements.filterMap Stmt.completable?).map fun decl =>
      ⟨c.resolve, c.file.containingDir, decl.specifier⟩ := by
    show (c.module.requests c.file).map (Lookup.ofRequest c.resolve) = _
    rw [ModuleTree.requests_eq, List.map_map]
    rfl
  rw [showAll_visit, ← hlookups] at hwalk
  exact congrArg (note · .left) hwalk

/-! ## The log -/

variable {table : Extension.Table} {history : List Lookup} {s : Session}

/-- A pair that is known is found in the cache. -/
theorem eventsOf_of_known {l : Lookup} {r : Replacement}
    (h : s.cache.get? l.dir l.specifier = some r) :
    s.eventsOf l.resolve l.dir l.specifier = [.cacheHit l.dir l.specifier] := by
  unfold eventsOf
  rw [h]

/-- A pair that is new is asked for. -/
theorem eventsOf_of_new {l : Lookup} (h : s.cache.get? l.dir l.specifier = none) :
    s.eventsOf l.resolve l.dir l.specifier =
      .asked l.dir l.specifier s.table.sources :: l.missEvents s.table := by
  unfold eventsOf
  rw [h]
  rfl

/-- The events of a look-up and of what is written are its trace after those in the history. -/
theorem Recalls.eventsOf_eq (hs : Recalls table history s) (l : Lookup) :
    s.eventsOf l.resolve l.dir l.specifier ++
        [.replacing l.specifier (s.replacement l.resolve l.dir l.specifier).specifier] =
      l.trace table history := by
  have hknown : s.cache.get? l.dir l.specifier =
      (Lookup.first? history l.key).map (·.answer table) := hs.get?_eq l.dir l.specifier
  rw [hs.replacement_eq]
  unfold Lookup.trace
  cases hfirst : Lookup.first? history l.key with
  | some first =>
    rw [hfirst] at hknown
    rw [eventsOf_of_known hknown]
  | none =>
    rw [hfirst] at hknown
    rw [eventsOf_of_new hknown, hs.table_eq]

/-- **One look-up of a module** leaves its trace, and is added to the history. -/
theorem Recalls.relinkNoted (hs : Recalls table history s) (l : Lookup) :
    Recalls table (history ++ [l]) (s.relinkNoted l) ∧
      (s.relinkNoted l).log = s.log ++ l.trace table history := by
  refine ⟨(hs.relink l).2.of_trimmed (trimmed_note rfl _).symm, ?_⟩
  rw [log_relinkNoted, hs.eventsOf_eq]

/-- **All look-ups of a module** leave their traces, one after another. -/
theorem Recalls.relinkNotedAll (hs : Recalls table history s) (lookups : List Lookup) :
    Recalls table (history ++ lookups) (s.relinkNotedAll lookups) ∧
      (s.relinkNotedAll lookups).log =
        s.log ++ inTurn (Lookup.trace table) history lookups := by
  induction lookups generalizing history s with
  | nil => exact ⟨(List.append_nil history).symm ▸ hs, (List.append_nil s.log).symm⟩
  | cons l rest ih =>
    obtain ⟨hnext, hlog⟩ := hs.relinkNoted l
    obtain ⟨hlast, hrest⟩ := ih hnext
    rw [List.append_assoc] at hlast
    rw [hlog, List.append_assoc] at hrest
    exact ⟨hlast, hrest⟩

/-- **A module** leaves its trace. -/
theorem Recalls.relinkModule {before : List Call} (hs : Recalls table (before.flatMap Call.lookups) s)
    (c : Call) :
    Recalls table ((before ++ [c]).flatMap Call.lookups)
        (s.relinkModule c.resolve c.file c.module).2 ∧
      (s.relinkModule c.resolve c.file c.module).2.log = s.log ++ c.trace table before := by
  have hentered : Recalls table (before.flatMap Call.lookups)
      ((s.note (.opened c.file)).note .entered) :=
    hs.of_trimmed (by rw [trimmed_note rfl, trimmed_note rfl])
  obtain ⟨hlast, hlog⟩ := hentered.relinkNotedAll c.lookups
  rw [relinkModule_snd]
  constructor
  · rw [List.flatMap_append, List.flatMap_singleton]
    exact hlast.of_trimmed (trimmed_note rfl _).symm
  · show _ ++ [Event.left] = _
    rw [hlog]
    simp [note, Call.trace]

/-- **All modules of a run** leave their traces, one after another. -/
theorem Recalls.relinkCalls {before : List Call} (hs : Recalls table (before.flatMap Call.lookups) s)
    (calls : List Call) :
    (Session.performAll (calls.map Call.step) s).2.log =
      s.log ++ inTurn (Call.trace table) before calls := by
  induction calls generalizing before s with
  | nil => exact (List.append_nil s.log).symm
  | cons c rest ih =>
    obtain ⟨hnext, hlog⟩ := hs.relinkModule c
    have hrest := ih hnext
    rw [hlog, List.append_assoc] at hrest
    exact hrest

/-! ## The counts -/

/-- The records that the log shows. -/
def shown (s : Session) : List Event.Record :=
  s.log.filterMap Event.record?

/-- The session has counted what its log shows. -/
structure Tallied (s : Session) : Prop where
  hits_eq : s.shown.countP (·.text = "resolution cache hit") = s.cache.hits
  relinked_eq : s.shown.countP (·.text = "rewriting specifier") = s.relinked
  misses_eq : s.shown.countP (·.level = .debug) = s.cache.entries.countP (·.2.isMiss)

theorem tallied_new (options : Options) : Tallied (new options) :=
  ⟨rfl, rfl, rfl⟩

/-- An event that the log does not show changes no count. -/
theorem Tallied.note (hs : Tallied s) {e : Event} (he : e.record? = none) : Tallied (s.note e) := by
  have hshown : (s.note e).shown = s.shown := by simp [shown, Session.note, he]
  exact ⟨hshown ▸ hs.hits_eq, hshown ▸ hs.relinked_eq, hshown ▸ hs.misses_eq⟩

/-- What a look-up shows: a hit if its pair is known, and else a debug record if its answer is a miss. -/
theorem countP_eventsOf (l : Lookup) (s : Session) :
    let shown := (s.eventsOf l.resolve l.dir l.specifier).filterMap Event.record?
    shown.countP (·.text = "resolution cache hit") = (if l.key ∈ s.cache.keys then 1 else 0) ∧
      shown.countP (·.text = "rewriting specifier") = 0 ∧
      shown.countP (·.level = .debug) =
        if l.key ∈ s.cache.keys then 0 else if (l.answer s.table).isMiss then 1 else 0 := by
  cases hknown : s.cache.get? l.dir l.specifier with
  | some r =>
    have hmem : l.key ∈ s.cache.keys := (s.cache.get?_isSome_iff _ _).mp (by rw [hknown]; rfl)
    rw [eventsOf_of_known hknown]
    simp [hmem, Event.record?]
  | none =>
    have hmem : l.key ∉ s.cache.keys := (s.cache.get?_eq_none_iff _ _).mp hknown
    rw [eventsOf_of_new hknown, List.filterMap_cons_none rfl]
    rcases l.missEvents_cases s.table with
      ⟨hnone, hmiss⟩ | ⟨e, record, hone, hrecord, hlevel, hhit, hreplacing, hmiss⟩
    · simp [hmem, hnone, hmiss]
    · simp [hmem, hone, hrecord, hlevel, hhit, hreplacing, hmiss]

/-- **One look-up of a module** is counted as it shows. -/
theorem Tallied.relinkNoted (hs : Tallied s) (l : Lookup) : Tallied (s.relinkNoted l) := by
  obtain ⟨hhits, hreplacing, hmisses⟩ := countP_eventsOf l s
  have hshown : (s.relinkNoted l).shown = s.shown ++
      ((s.eventsOf l.resolve l.dir l.specifier).filterMap Event.record? ++
        [⟨.trace, "rewriting specifier", [("from", l.specifier),
          ("to", (s.replacement l.resolve l.dir l.specifier).specifier)]⟩]) := by
    unfold shown
    rw [log_relinkNoted, List.filterMap_append, List.filterMap_append]
    rfl
  constructor
  · rw [hshown, cache_relinkNoted, List.countP_append, List.countP_append, hs.hits_eq, hhits,
      Cache.hits_fetch]
    change _ = if l.key ∈ s.cache.keys then _ else _
    split <;> rfl
  · rw [hshown, relinked_relinkNoted, List.countP_append, List.countP_append, hs.relinked_eq,
      hreplacing]
    rfl
  · rw [hshown, cache_relinkNoted, List.countP_append, List.countP_append, hs.misses_eq, hmisses,
      Cache.countP_entries_fetch]
    rfl

/-- **A module** is counted as it shows. -/
theorem Tallied.relinkModule (hs : Tallied s) (c : Call) :
    Tallied (s.relinkModule c.resolve c.file c.module).2 := by
  have hentered : Tallied ((s.note (.opened c.file)).note .entered) := (hs.note rfl).note rfl
  rw [relinkModule_snd]
  refine Tallied.note ?_ rfl
  generalize (s.note (.opened c.file)).note .entered = st at hentered
  unfold relinkNotedAll
  induction c.lookups generalizing st with
  | nil => exact hentered
  | cons l rest ih => exact ih (st.relinkNoted l) (hentered.relinkNoted l)

/-- **All modules of a run** are counted as they show. -/
theorem Tallied.relinkCalls (hs : Tallied s) (calls : List Call) :
    Tallied (performAll (calls.map Call.step) s).2 := by
  induction calls generalizing s with
  | nil => exact hs
  | cons c rest ih => exact ih (hs.relinkModule c)

/-- **The log of a session mirrors what it does.** For any options and any modules that a new session
relinks one after another, each with whatever resolver there is by then: every module is opened and
entered; each of its specifiers that can be completed, in the order of the text, leaves a hit if its
pair was looked up before, and else a question and, if the answer is a miss, one debug record of that;
then what is written in its place; and at last the module is left. Nothing else is in the log. So the
log shows as many hits as the session counts, as many replacements as it has relinked specifiers, and
as many debug records as there are misses in the cache. -/
theorem performAll_log (options : Options) (calls : List Call) :
    let last := ((new options).performAll (calls.map Call.step)).2
    last.log = inTurn (Call.trace options.table) [] calls ∧
      (∀ l : Lookup,
        (l.missEvents options.table).map (fun e => e.record?.map Event.Record.level) =
          if (l.answer options.table).isMiss then [some .debug] else []) ∧
      last.shown.countP (·.text = "resolution cache hit") = last.stats.cacheHits ∧
      last.shown.countP (·.text = "rewriting specifier") = last.stats.relinked ∧
      last.shown.countP (·.level = .debug) = last.cache.entries.countP (·.2.isMiss) := by
  intro last
  have hlog : last.log = [] ++ inTurn (Call.trace options.table) [] calls :=
    Recalls.relinkCalls (recalls_new options) calls
  have hlast : Tallied last := (tallied_new options).relinkCalls calls
  refine ⟨hlog, fun l => ?_, hlast.hits_eq, hlast.relinked_eq, hlast.misses_eq⟩
  rcases l.missEvents_cases options.table with
    ⟨hnone, hmiss⟩ | ⟨e, record, hone, hrecord, hlevel, -, -, hmiss⟩
  · simp [hnone, hmiss]
  · simp [hone, hrecord, hlevel, hmiss]

end Session

end Relink
