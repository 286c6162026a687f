import Relink.Path.Basic

/-!
# The cache of replacements

Model of `ResolutionCache` and `Rewrite`; `Cache.fetch` is `get_or_compute` with a computation that
leaves no trace.

What a specifier becomes depends on the directory and the specifier alone while a session lasts, so
each pair is worked out once. Directories are the same when their components agree; specifiers when
they are the same text. Misses are remembered like any other replacement.

* `get?_store_self`, `get?_store_of_ne`: what is stored is found again, and nothing else changes.
-/

namespace Relink

/-- What becomes of a specifier. -/
inductive Replacement where
  /-- The file was found; this is the specifier of its compiled file. -/
  | resolved (specifier : String)
  /-- No file was found; the specifier stays as it was. -/
  | miss (specifier : String)
deriving DecidableEq, Repr, Inhabited

namespace Replacement

/-- The specifier to be written. -/
def specifier : Replacement → String
  | .resolved s => s
  | .miss s => s

/-- No file was found. -/
def isMiss : Replacement → Bool
  | .resolved _ => false
  | .miss _ => true

end Replacement

/-- A directory, by its components, and a specifier. -/
structure Cache.Key where
  dir : List Component
  specifier : String
deriving DecidableEq, Repr

/-- The replacements known, with how often one was found and how often one had to be worked out. -/
structure Cache where
  entries : List (Cache.Key × Replacement) := []
  hits : Nat := 0
  misses : Nat := 0
deriving DecidableEq, Repr, Inhabited

namespace Cache

/-- The key of a specifier in a directory. -/
def keyOf (dir : Path) (specifier : String) : Key :=
  ⟨dir.components, specifier⟩

/-- The replacement known for a specifier in a directory. -/
def get? (c : Cache) (dir : Path) (specifier : String) : Option Replacement :=
  (c.entries.find? fun entry => entry.1 = keyOf dir specifier).map Prod.snd

/-- The number of pairs known. -/
def size (c : Cache) : Nat :=
  c.entries.length

/-- Counts that a replacement was found. -/
def countHit (c : Cache) : Cache :=
  { c with hits := c.hits + 1 }

/-- Remembers a replacement that had to be worked out, and counts that it was not found. -/
def store (c : Cache) (dir : Path) (specifier : String) (r : Replacement) : Cache :=
  { c with entries := c.entries ++ [(keyOf dir specifier, r)], misses := c.misses + 1 }

/-- The replacement known for a specifier in a directory, or else the one that `compute` gives, which is
remembered. -/
def fetch (c : Cache) (dir : Path) (specifier : String) (compute : Unit → Replacement) :
    Replacement × Cache :=
  match c.get? dir specifier with
  | some r => (r, c.countHit)
  | none => (compute (), c.store dir specifier (compute ()))

theorem get?_countHit (c : Cache) (dir : Path) (specifier : String) :
    c.countHit.get? dir specifier = c.get? dir specifier := rfl

theorem get?_store_self (c : Cache) {dir : Path} {specifier : String} (r : Replacement)
    (h : c.get? dir specifier = none) : (c.store dir specifier r).get? dir specifier = some r := by
  unfold get? at h ⊢
  rw [Option.map_eq_none_iff] at h
  simp [store, List.find?_append, h]

theorem get?_store_of_ne (c : Cache) {dir dir' : Path} {specifier specifier' : String} (r : Replacement)
    (h : keyOf dir' specifier' ≠ keyOf dir specifier) :
    (c.store dir specifier r).get? dir' specifier' = c.get? dir' specifier' := by
  unfold get?
  have hn : keyOf dir specifier ≠ keyOf dir' specifier' := fun e => h e.symm
  simp [store, List.find?_append, hn]

end Cache

end Relink
