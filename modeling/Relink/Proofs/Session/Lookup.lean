import Relink.Session.Basic

/-!
# What one relinking does

`Session.relink` (`rewrite_specifier`) goes through a look-up, an answer, a cache and five counters.
`relink_eq` says all of it in one equation: the replacement, the cache, the counts and the events. Later
files take a session apart with it and do not look into the steps again.

* `Resolver.replacement` is what a specifier becomes when nothing is remembered.
* `eventsOf` are the events of one look-up.
* `trimmed` forgets the records of walks, which say nothing about what was looked up.
-/

namespace Relink

/-- What a specifier in a directory becomes when nothing is remembered. -/
def Resolver.replacement (resolve : Resolver) (table : Extension.Table) (dir : Path)
    (specifier : String) : Replacement :=
  Session.replacementOf table dir specifier (.ofAnswer (resolve dir specifier table.sources))

theorem Resolver.replacement_of_isAbsolute {resolve : Resolver} {table : Extension.Table}
    {dir p : Path} {specifier : String} (h : resolve dir specifier table.sources = .ok p)
    (hp : p.isAbsolute = true) :
    resolve.replacement table dir specifier =
      .resolved (relativeSpecifier dir (table.outputPath p)) := by
  unfold Resolver.replacement
  rw [h, Resolution.ofAnswer, if_pos hp]
  rfl

theorem Resolver.replacement_of_not_isAbsolute {resolve : Resolver} {table : Extension.Table}
    {dir p : Path} {specifier : String} (h : resolve dir specifier table.sources = .ok p)
    (hp : p.isAbsolute = false) : resolve.replacement table dir specifier = .miss specifier := by
  unfold Resolver.replacement
  rw [h, Resolution.ofAnswer, if_neg (by simp [hp])]
  rfl

theorem Resolver.replacement_of_error {resolve : Resolver} {table : Extension.Table}
    {dir : Path} {specifier : String} {fault : ResolveFault}
    (h : resolve dir specifier table.sources = .error fault) :
    resolve.replacement table dir specifier = .miss specifier := by
  unfold Resolver.replacement
  rw [h]
  rfl

/-- A specifier stays as it was, or it becomes the specifier of the output of an absolute answer. -/
theorem Resolver.replacement_cases (resolve : Resolver) (table : Extension.Table) (dir : Path)
    (specifier : String) :
    resolve.replacement table dir specifier = .miss specifier ∨
      ∃ p, resolve dir specifier table.sources = .ok p ∧ p.isAbsolute = true ∧
        resolve.replacement table dir specifier =
          .resolved (relativeSpecifier dir (table.outputPath p)) := by
  cases h : resolve dir specifier table.sources with
  | error fault => exact Or.inl (replacement_of_error h)
  | ok p =>
    by_cases hp : p.isAbsolute = true
    · exact Or.inr ⟨p, rfl, hp, replacement_of_isAbsolute h hp⟩
    · exact Or.inl (replacement_of_not_isAbsolute h (by simpa using hp))

/-- The event that says why an answer does not count, if it does not. -/
def Event.ofAnswer (dir : Path) (specifier : String) : Except ResolveFault Path → List Event
  | .ok p => if p.isAbsolute then [] else [.relativeAnswer dir specifier p]
  | .error fault => [.missed dir specifier fault]

/-- The event belongs to the walk through a module and not to a look-up. -/
def Event.ofWalk : Event → Bool
  | .replacing .. | .opened .. | .entered | .left => true
  | _ => false

namespace Session

/-- The events of looking a specifier up. -/
def eventsOf (resolve : Resolver) (dir : Path) (specifier : String) (s : Session) : List Event :=
  match s.cache.get? dir specifier with
  | some _ => [.cacheHit dir specifier]
  | none =>
    .asked dir specifier s.table.sources ::
      Event.ofAnswer dir specifier (resolve dir specifier s.table.sources)

/-- The replacement that a session gives for a specifier, known or worked out. -/
def replacement (resolve : Resolver) (dir : Path) (specifier : String) (s : Session) :
    Replacement :=
  (s.cache.get? dir specifier).getD (resolve.replacement s.table dir specifier)

theorem noteAnswer_eq (dir : Path) (specifier : String) (answer : Except ResolveFault Path)
    (s : Session) :
    s.noteAnswer dir specifier answer =
      { s with log := s.log ++ Event.ofAnswer dir specifier answer } := by
  unfold noteAnswer Event.ofAnswer
  cases answer with
  | error fault => rfl
  | ok p =>
    dsimp only
    split
    · rw [List.append_nil]
    · rfl

/-- Everything that looking a specifier up does. -/
theorem lookup_eq (resolve : Resolver) (dir : Path) (specifier : String) (s : Session) :
    s.lookup resolve dir specifier =
      (s.replacement resolve dir specifier,
        { s with
          cache := (s.cache.fetch dir specifier fun _ =>
            resolve.replacement s.table dir specifier).2
          log := s.log ++ s.eventsOf resolve dir specifier }) := by
  unfold lookup replacement eventsOf Cache.fetch
  cases h : s.cache.get? dir specifier with
  | some r => rfl
  | none =>
    simp only [compute, ask, note, noteAnswer_eq, List.append_assoc]
    rfl

/-- **Everything that relinking a specifier does.** -/
theorem relink_eq (resolve : Resolver) (dir : Path) (specifier : String) (s : Session) :
    s.relink resolve dir specifier =
      (s.replacement resolve dir specifier,
        { s with
          cache := (s.cache.fetch dir specifier fun _ =>
            resolve.replacement s.table dir specifier).2
          relinked := s.relinked + 1
          misses := s.misses + if (s.replacement resolve dir specifier).isMiss then 1 else 0
          changed := s.changed +
            if !(s.replacement resolve dir specifier).isMiss &&
              (s.replacement resolve dir specifier).specifier != specifier then 1 else 0
          log := s.log ++ s.eventsOf resolve dir specifier }) := by
  unfold relink
  rw [lookup_eq]
  rfl

/-- A session that remembers nothing works every replacement out. -/
theorem replacement_new (options : Options) (resolve : Resolver) (dir : Path)
    (specifier : String) :
    (new options).replacement resolve dir specifier =
      resolve.replacement options.table dir specifier := rfl

/-! ## Records of walks -/

/-- The session without the records of walks. -/
def trimmed (s : Session) : Session :=
  { s with log := s.log.filter fun e => !e.ofWalk }

/-- A record of a walk is forgotten. -/
theorem trimmed_note {e : Event} (h : e.ofWalk = true) (s : Session) :
    (s.note e).trimmed = s.trimmed := by
  simp [trimmed, note, h]

/-- Events of a look-up are no records of a walk. -/
theorem ofWalk_of_mem_eventsOf {resolve : Resolver} {dir : Path} {specifier : String}
    {s : Session} {e : Event} (h : e ∈ s.eventsOf resolve dir specifier) : e.ofWalk = false := by
  unfold eventsOf at h
  split at h
  · cases List.mem_singleton.mp h; rfl
  · rcases List.mem_cons.mp h with rfl | h
    · rfl
    · unfold Event.ofAnswer at h
      split at h
      · split at h
        · exact absurd h List.not_mem_nil
        · cases List.mem_singleton.mp h; rfl
      · cases List.mem_singleton.mp h; rfl

/-- Relinking neither reads nor writes records of walks. -/
theorem relink_trimmed (resolve : Resolver) (dir : Path) (specifier : String) (s : Session) :
    s.trimmed.relink resolve dir specifier =
      ((s.relink resolve dir specifier).1, (s.relink resolve dir specifier).2.trimmed) := by
  have hevents : (s.eventsOf resolve dir specifier).filter (fun e => !e.ofWalk) =
      s.eventsOf resolve dir specifier :=
    List.filter_eq_self.mpr fun e he => by rw [ofWalk_of_mem_eventsOf he]; rfl
  rw [relink_eq, relink_eq]
  simp only [trimmed, List.filter_append, hevents]
  rfl

end Session

end Relink
