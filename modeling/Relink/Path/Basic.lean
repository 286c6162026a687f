import Relink.Text.Utf8

/-!
# Paths

Model of `Path` as far as the program uses it: `components` and the comparisons by them, `join`,
`parent`, `file_name`, `with_file_name`, `starts_with`, `is_absolute` and `display`, with `/` as the
only separator. `Path.append` is `with_suffix`.

A path is the byte string it was spelled with. Two spellings mean the same to everything that
compares paths when their `components` agree: empty segments and `.` carry no meaning, except a
`.` that opens a relative path.

* `components`: what a path says, step by step; `Path.Same` compares it.
* `join`, `parent?`, `fileName?`, `withFileName`: edits of the spelling that keep the rest of it.
-/

namespace Relink

/-- A path, exactly as spelled. -/
structure Path where
  bytes : Bytes
deriving DecidableEq, Repr, Inhabited

namespace Path

/-- The byte that separates segments. -/
def slash : UInt8 := 0x2F

/-- The segment that stays in place. -/
def dot : Bytes := [0x2E]

/-- The segment that goes to the parent. -/
def dotDot : Bytes := [0x2E, 0x2E]

end Path

/-- One step of a path. -/
inductive Component where
  /-- Back to the root. -/
  | root
  /-- The `.` that opens a relative path. -/
  | current
  /-- Up to the parent. -/
  | parent
  /-- Down to a named entry. -/
  | name (bytes : Bytes)
deriving DecidableEq, Repr

/-- The step a segment stands for; an empty one and `.` stand for none. -/
def Component.ofSegment? (segment : Bytes) : Option Component :=
  if segment = [] ∨ segment = Path.dot then none
  else if segment = Path.dotDot then some .parent
  else some (.name segment)

/-- How a step is spelled. -/
def Component.spelling : Component → Bytes
  | .root => [Path.slash]
  | .current => Path.dot
  | .parent => Path.dotDot
  | .name bytes => bytes

namespace Path

/-- The path spelled by a text. -/
def ofText (text : String) : Path :=
  ⟨Utf8.encode text.toList⟩

/-- The text of a path, if its bytes are UTF-8. -/
def text? (p : Path) : Option String :=
  (Utf8.decode? p.bytes).map String.ofList

/-- How a path is shown: what is no text becomes U+FFFD. -/
def display (p : Path) : String :=
  String.ofList (Utf8.lossy p.bytes)

/-- The stretches between slashes; there is always at least one. -/
def segments : Bytes → List Bytes
  | [] => [[]]
  | b :: bs =>
    if b = slash then [] :: segments bs
    else match segments bs with
      | [] => [[b]]
      | s :: rest => (b :: s) :: rest

/-- Segments put back together. -/
def unsegments : List Bytes → Bytes
  | [] => []
  | [s] => s
  | s :: rest => s ++ slash :: unsegments rest

theorem segments_ne_nil (bytes : Bytes) : segments bytes ≠ [] := by
  cases bytes with
  | nil => simp [segments]
  | cons b bs =>
    rw [segments]
    split
    · simp
    · split <;> simp

/-- Splitting loses nothing. -/
theorem unsegments_segments (bytes : Bytes) : unsegments (segments bytes) = bytes := by
  induction bytes with
  | nil => rfl
  | cons b bs ih =>
    rw [segments]
    split
    · next h =>
      subst h
      match hs : segments bs with
      | [] => exact absurd hs (segments_ne_nil bs)
      | s :: rest => rw [hs] at ih; simp [unsegments, ih]
    · match hs : segments bs with
      | [] => exact absurd hs (segments_ne_nil bs)
      | [s] => rw [hs] at ih; simp_all [unsegments]
      | s :: t :: rest => rw [hs] at ih; simp_all [unsegments]

/-- A path is absolute when it starts with a slash. -/
def isAbsolute (p : Path) : Bool :=
  p.bytes.head? == some slash

/-- The opening that is no ordinary segment: the root, or the leading `.` of a relative path. -/
def opening (p : Path) : Option Component :=
  if p.isAbsolute then some .root
  else if (segments p.bytes).head? = some dot then some .current
  else none

/-- The bytes after the opening's one byte. -/
def body (p : Path) : Bytes :=
  if p.opening.isSome then p.bytes.drop 1 else p.bytes

/-- What the path says, step by step. -/
def components (p : Path) : List Component :=
  p.opening.toList ++ (segments p.body).filterMap Component.ofSegment?

/-- Two spellings of one path: their steps agree. -/
def Same (p q : Path) : Prop :=
  p.components = q.components

instance (p q : Path) : Decidable (Same p q) :=
  inferInstanceAs (Decidable (p.components = q.components))

/-- `p` lies at or below `dir`, by steps. -/
def startsWith (p dir : Path) : Bool :=
  dir.components.isPrefixOf p.components

/-- `q` read from the directory `p`: an absolute `q` stands alone, any other is put after `p` and a
slash. No slash is added after an empty `p` or one that ends in a slash. -/
def join (p q : Path) : Path :=
  if q.isAbsolute then q
  else if p.bytes = [] ∨ p.bytes.getLast? = some slash then ⟨p.bytes ++ q.bytes⟩
  else ⟨p.bytes ++ slash :: q.bytes⟩

/-- The segments of the body up to the last that stands for a step, last first. -/
def reversedSteps (segs : List Bytes) : List Bytes :=
  segs.reverse.dropWhile fun s => (Component.ofSegment? s).isNone

/-- The path with other segments after its opening. -/
def withBody (p : Path) (segs : List Bytes) : Path :=
  ⟨(p.opening.map Component.spelling).getD [] ++ unsegments segs⟩

/-- The path without its last component, the spelling before it kept. The root and the empty path
have no parent; the parent of a single relative component is the empty path. -/
def parent? (p : Path) : Option Path :=
  match reversedSteps (segments p.body), p.opening with
  | _ :: before, _ => some (p.withBody (reversedSteps before.reverse).reverse)
  | [], some .current => some ⟨[]⟩
  | [], _ => none

/-- The last component, when it is a name. -/
def fileName? (p : Path) : Option Bytes :=
  match p.components.getLast? with
  | some (.name n) => some n
  | _ => none

/-- The path with its last component replaced by `name`, or `name` put below a path that does not
end in a name. -/
def withFileName (p : Path) (name : Bytes) : Path :=
  if p.fileName?.isSome then (p.parent?.getD p).join ⟨name⟩ else p.join ⟨name⟩

/-- The path with `suffix` written after it. -/
def append (p : Path) (suffix : String) : Path :=
  ⟨p.bytes ++ Utf8.encode suffix.toList⟩

end Path

end Relink
