import Relink.Proofs.Session.History

/-!
# The first answer is kept

Files may come and go while a session lasts, so the resolver that a step meets may answer otherwise than
the one before. What a session gives for a specifier in a directory (`get_or_compute`) is nevertheless
fixed by the first look-up of the pair: only then is the resolver asked, and what came of it is given
ever after.

`Lookup` records a look-up with the resolver of that moment and the directory as it was spelled then.
`Recalls` says that a session knows exactly the first look-ups of its history; it holds of whatever
resolvers, since it speaks of no other look-ups.

Results:
* `Recalls.relink`, `Recalls.relinkEach`: one look-up, and those of a module.
* `Recalls.perform`: one step of a run.
* `performAll_recalls`: all steps, with the questions asked, the replacements and the cache.
-/

namespace Relink

/-! ## Look-ups -/

/-- A look-up: the resolver as it was then, and what was looked up. -/
structure Lookup where
  resolve : Resolver
  dir : Path
  specifier : String

namespace Lookup

variable (table : Extension.Table)

/-- The look-up of a request. -/
def ofRequest (resolve : Resolver) (request : Path × String) : Lookup :=
  ⟨resolve, request.1, request.2⟩

/-- What the cache knows the look-up by. -/
def key (l : Lookup) : Cache.Key :=
  Cache.keyOf l.dir l.specifier

/-- What came of the look-up if nothing was remembered. -/
def answer (l : Lookup) : Replacement :=
  l.resolve.replacement table l.dir l.specifier

/-- The first look-up of a pair. -/
def first? (history : List Lookup) (key : Cache.Key) : Option Lookup :=
  history.find? fun l => l.key = key

/-- The first look-up of the same pair, or else this one. -/
def firstIn (history : List Lookup) (l : Lookup) : Lookup :=
  (first? history l.key).getD l

/-- The event by which a look-up shows after others: a question if its pair is new. -/
def event (history : List Lookup) (l : Lookup) : Event :=
  match first? history l.key with
  | none => .asked l.dir l.specifier table.sources
  | some _ => .cacheHit l.dir l.specifier

/-- The events by which look-ups show, one after another. -/
def events (history : List Lookup) : List Lookup → List Event
  | [] => []
  | l :: rest => l.event table history :: events (history ++ [l]) rest

theorem first?_append (xs ys : List Lookup) (key : Cache.Key) :
    first? (xs ++ ys) key = (first? xs key).or (first? ys key) :=
  List.find?_append

theorem first?_singleton (l : Lookup) (key : Cache.Key) :
    first? [l] key = if l.key = key then some l else none := by
  unfold first?
  rw [List.find?_singleton]
  simp only [decide_eq_true_eq]

/-- Later look-ups do not change which was the first. -/
theorem firstIn_append {xs : List Lookup} {l : Lookup} (h : l ∈ xs) (ys : List Lookup) :
    l.firstIn (xs ++ ys) = l.firstIn xs := by
  have hsome : (first? xs l.key).isSome = true := by
    unfold first?
    rw [List.find?_isSome]
    exact ⟨l, h, by simp⟩
  obtain ⟨first, hfirst⟩ := Option.isSome_iff_exists.mp hsome
  unfold firstIn
  rw [first?_append, hfirst, Option.some_or]

/-- A look-up is the first of its pair unless that was looked up before. -/
theorem firstIn_append_cons (xs ys : List Lookup) (l : Lookup) :
    l.firstIn (xs ++ l :: ys) = l.firstIn xs := by
  unfold firstIn
  rw [first?_append, show first? (l :: ys) l.key = some l from List.find?_cons_of_pos (by simp)]
  cases first? xs l.key <;> rfl

theorem events_append (history xs ys : List Lookup) :
    events table history (xs ++ ys) =
      events table history xs ++ events table (history ++ xs) ys := by
  induction xs generalizing history with
  | nil => rw [List.append_nil]; rfl
  | cons l rest ih =>
    rw [List.cons_append, events, events, ih, List.append_assoc]
    rfl

end Lookup

/-- A look-up shows by this event: the question to the resolver or the hit in the cache. -/
def Event.ofLookup : Event → Bool
  | .asked .. | .cacheHit .. => true
  | _ => false

theorem Event.ofLookup_eq_false {e : Event} (h : e.ofWalk = true) : e.ofLookup = false := by
  cases e with
  | replacing | opened | entered | left => rfl
  | _ => cases h

/-- Why an answer does not count is noted by an event of its own. -/
theorem Event.filter_ofAnswer (dir : Path) (specifier : String)
    (answer : Except ResolveFault Path) :
    (Event.ofAnswer dir specifier answer).filter Event.ofLookup = [] := by
  unfold Event.ofAnswer
  cases answer with
  | error fault => rfl
  | ok p =>
    dsimp only
    split <;> rfl

namespace Session

/-! ## Steps -/

/-- What a session is told to do. -/
inductive Step where
  | relink (dir : Path) (specifier : String)
  | relinkModule (file : Path) (m : ModuleTree)

/-- What comes of a step. -/
inductive Outcome where
  | replacement (r : Replacement)
  | module (m : ModuleTree)

/-- Carries out a step with the resolver as it is then. -/
def perform (resolve : Resolver) : Step → Session → Outcome × Session
  | .relink dir specifier, s =>
    let (r, s) := s.relink resolve dir specifier
    (.replacement r, s)
  | .relinkModule file m, s =>
    let (m, s) := s.relinkModule resolve file m
    (.module m, s)

/-- Carries out steps one after another, each with the resolver as it is then. -/
def performAll (steps : List (Resolver × Step)) (s : Session) : List Outcome × Session :=
  carry (fun step s => perform step.1 step.2 s) steps s

/-- The look-ups of a module or of a single specifier, in order. -/
def Step.lookups (resolve : Resolver) : Step → List Lookup
  | .relink dir specifier => [⟨resolve, dir, specifier⟩]
  | .relinkModule file m => (m.requests file).map (Lookup.ofRequest resolve)

/-- The look-ups of several steps, in order. -/
def lookupsOf (steps : List (Resolver × Step)) : List Lookup :=
  steps.flatMap fun step => step.2.lookups step.1

/-- What comes of a step whose look-ups have these replacements. -/
def Step.outcome (resolve : Resolver) (answer : Lookup → Replacement) : Step → Outcome
  | .relink dir specifier => .replacement (answer ⟨resolve, dir, specifier⟩)
  | .relinkModule file m =>
    .module (m.exchange (((Step.relinkModule file m).lookups resolve).map fun l =>
      (answer l).specifier))

theorem Step.outcome_congr {resolve : Resolver} {step : Step} {f g : Lookup → Replacement}
    (h : ∀ l ∈ step.lookups resolve, f l = g l) :
    step.outcome resolve f = step.outcome resolve g := by
  cases step with
  | relink dir specifier => exact congrArg Outcome.replacement (h _ List.mem_cons_self)
  | relinkModule file m =>
    exact congrArg (fun texts => Outcome.module (m.exchange texts))
      (List.map_congr_left fun l hl => congrArg Replacement.specifier (h l hl))

/-- Records of walks show no look-up. -/
theorem filter_trimmed (s : Session) :
    s.trimmed.log.filter Event.ofLookup = s.log.filter Event.ofLookup := by
  unfold trimmed
  rw [List.filter_filter]
  refine List.filter_congr fun e _ => ?_
  cases he : e.ofWalk with
  | true => rw [Event.ofLookup_eq_false he]; rfl
  | false => exact Bool.and_true _

/-! ## What a session recalls -/

variable {table : Extension.Table} {history : List Lookup} {s s' : Session}

/-- The session knows what came of the first look-up of each pair and of nothing else, and it asked
for those alone. -/
structure Recalls (table : Extension.Table) (history : List Lookup) (s : Session) : Prop where
  table_eq : s.table = table
  get?_eq : ∀ dir specifier, s.cache.get? dir specifier =
    (Lookup.first? history (Cache.keyOf dir specifier)).map (·.answer table)
  events_eq : s.log.filter Event.ofLookup = Lookup.events table [] history

theorem recalls_new (options : Options) : Recalls options.table [] (new options) :=
  ⟨rfl, fun _ _ => rfl, rfl⟩

namespace Recalls

/-- Records of walks are no look-ups. -/
theorem of_trimmed (h : s.trimmed = s'.trimmed) (hs : Recalls table history s) :
    Recalls table history s' := by
  refine ⟨?_, ?_, ?_⟩
  · exact (congrArg Session.table h).symm.trans hs.table_eq
  · intro dir specifier
    have hcache : s'.cache = s.cache := (congrArg Session.cache h).symm
    rw [hcache, hs.get?_eq]
  · rw [← filter_trimmed, ← h, filter_trimmed, hs.events_eq]

/-- What the session gives is what came of the first look-up of the pair. -/
theorem replacement_eq (hs : Recalls table history s) (l : Lookup) :
    s.replacement l.resolve l.dir l.specifier = (l.firstIn history).answer table := by
  unfold Session.replacement Lookup.firstIn
  rw [hs.get?_eq, hs.table_eq]
  show ((Lookup.first? history l.key).map _).getD _ = _
  cases Lookup.first? history l.key <;> rfl

/-- The session asks exactly when the pair is new. -/
theorem filter_eventsOf (hs : Recalls table history s) (l : Lookup) :
    (s.eventsOf l.resolve l.dir l.specifier).filter Event.ofLookup = [l.event table history] := by
  have hknown : s.cache.get? l.dir l.specifier =
      (Lookup.first? history l.key).map (·.answer table) := hs.get?_eq l.dir l.specifier
  unfold eventsOf Lookup.event
  rw [hknown, hs.table_eq]
  cases Lookup.first? history l.key with
  | some first => rfl
  | none => exact congrArg (_ :: ·) (Event.filter_ofAnswer _ _ _)

/-- **One look-up** gives what came of the first one of its pair, and is added to the history. -/
theorem relink (hs : Recalls table history s) (l : Lookup) :
    (s.relink l.resolve l.dir l.specifier).1 = (l.firstIn history).answer table ∧
      Recalls table (history ++ [l]) (s.relink l.resolve l.dir l.specifier).2 := by
  have hanswer := hs.replacement_eq l
  rw [relink_eq]
  refine ⟨hanswer, hs.table_eq, fun dir specifier => ?_, ?_⟩
  · have hfetch : (s.cache.fetch l.dir l.specifier fun _ =>
        l.resolve.replacement s.table l.dir l.specifier).1 = (l.firstIn history).answer table :=
      (s.cache.fetch_fst l.dir l.specifier _).trans hanswer
    dsimp only
    rw [Cache.get?_fetch, hfetch, hs.get?_eq, Lookup.first?_append, Lookup.first?_singleton]
    change (if Cache.keyOf dir specifier = l.key then _ else _) = _
    by_cases hkey : Cache.keyOf dir specifier = l.key
    · -- The pair of this look-up is known from its first look-up on, which may be this one.
      rw [if_pos hkey, hkey, if_pos rfl]
      unfold Lookup.firstIn
      cases Lookup.first? history l.key <;> rfl
    · rw [if_neg hkey, if_neg fun e => hkey e.symm, Option.or_none]
  · rw [List.filter_append, hs.events_eq, hs.filter_eventsOf, Lookup.events_append]
    rfl

/-- **Many look-ups**, one after another, with one resolver. -/
theorem relinkEach (hs : Recalls table history s) (resolve : Resolver)
    (requests : List (Path × String)) :
    let lookups := requests.map (Lookup.ofRequest resolve)
    (s.relinkEach resolve requests).1 =
        lookups.map (fun l => (l.firstIn (history ++ lookups)).answer table) ∧
      Recalls table (history ++ lookups) (s.relinkEach resolve requests).2 := by
  induction requests generalizing history s with
  | nil => exact ⟨rfl, (List.append_nil history).symm ▸ hs⟩
  | cons q rest ih =>
    obtain ⟨hfirst, hnext⟩ := hs.relink (.ofRequest resolve q)
    obtain ⟨hrest, hlast⟩ := ih hnext
    rw [List.append_assoc] at hrest hlast
    refine ⟨?_, hlast⟩
    rw [List.map_cons, List.map_cons, Lookup.firstIn_append_cons]
    exact congr (congrArg List.cons hfirst) hrest

/-- A module's look-ups are looked up and exchanged for what came of the first ones. -/
theorem perform (hs : Recalls table history s) (resolve : Resolver) (step : Step) :
    (perform resolve step s).1 = step.outcome resolve (fun l =>
        (l.firstIn (history ++ step.lookups resolve)).answer table) ∧
      Recalls table (history ++ step.lookups resolve) (perform resolve step s).2 := by
  cases step with
  | relink dir specifier =>
    obtain ⟨hanswer, hlast⟩ := hs.relink ⟨resolve, dir, specifier⟩
    refine ⟨congrArg Outcome.replacement (hanswer.trans ?_), hlast⟩
    exact congrArg (Lookup.answer table) (Lookup.firstIn_append_cons history [] _).symm
  | relinkModule file m =>
    obtain ⟨hanswers, hlast⟩ := hs.relinkEach resolve (m.requests file)
    obtain ⟨htree, hst⟩ := relinkModule_follows resolve file m s
    rw [hanswers, List.map_map] at htree
    exact ⟨congrArg Outcome.module htree, hlast.of_trimmed hst.symm⟩

end Recalls

/-- Steps that go on from a history. -/
theorem Recalls.performAll (hs : Recalls table history s) (steps : List (Resolver × Step)) :
    (performAll steps s).1 = steps.map (fun step => step.2.outcome step.1 fun l =>
        (l.firstIn (history ++ lookupsOf steps)).answer table) ∧
      Recalls table (history ++ lookupsOf steps) (performAll steps s).2 := by
  induction steps generalizing history s with
  | nil => exact ⟨rfl, (List.append_nil history).symm ▸ hs⟩
  | cons step rest ih =>
    obtain ⟨hfirst, hnext⟩ := hs.perform step.1 step.2
    obtain ⟨hrest, hlast⟩ := ih hnext
    have hlookups : history ++ step.2.lookups step.1 ++ lookupsOf rest =
        history ++ lookupsOf (step :: rest) := List.append_assoc ..
    rw [hlookups] at hrest hlast
    refine ⟨?_, hlast⟩
    rw [List.map_cons, ← hrest, ← hlookups]
    refine congrArg (· :: _) (hfirst.trans (Step.outcome_congr fun l hl => ?_))
    rw [Lookup.firstIn_append (List.mem_append_right history hl)]

/-- **The first answer is kept, and asked for once.** For any options and any steps of a new session,
each with whatever resolver there is by then: what comes of each step is what the first look-ups of
its pairs gave; the cache knows the pairs that were looked up, with what their first look-ups gave,
and no others; and each look-up shows by one event, a question with the source extensions of the table
if its pair is new and a hit in the cache if it is not. -/
theorem performAll_recalls (options : Options) (steps : List (Resolver × Step)) :
    let lookups := lookupsOf steps
    let run := (new options).performAll steps
    run.1 = steps.map (fun step => step.2.outcome step.1 fun l =>
        (l.firstIn lookups).answer options.table) ∧
      (∀ dir specifier, run.2.cache.get? dir specifier =
        (Lookup.first? lookups (Cache.keyOf dir specifier)).map (·.answer options.table)) ∧
      run.2.log.filter Event.ofLookup = Lookup.events options.table [] lookups := by
  intro lookups run
  obtain ⟨houtcomes, hlast⟩ := (recalls_new options).performAll steps
  exact ⟨houtcomes, hlast.get?_eq, hlast.events_eq⟩

end Session

end Relink
