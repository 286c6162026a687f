/-!
# Text as bytes, and bytes as text

Model of `to_str` and `to_string_lossy`, which are `decode?` and `lossy`.

A path is a string of bytes, a specifier is text; this file goes between the two.

* `encode` writes characters as UTF-8.
* `units` reads bytes back: each element is a character, or `none` for a *maximal subpart*, a
  longest run of bytes that begins a character but cannot be completed.
* `decode?` accepts exactly the byte strings in which no element is `none`; `lossy` puts U+FFFD
  for each of them, which is how a path that is no text is shown.
-/

namespace Relink

/-- A byte string. -/
abbrev Bytes := List UInt8

namespace Utf8

/-- The UTF-8 bytes of a list of characters. -/
def encode (text : List Char) : Bytes :=
  text.flatMap String.utf8EncodeChar

/-- A character begun but not finished: `left` bytes are missing, the next one has to lie between
`low` and `high`, and `bits` holds what the bytes so far say. -/
structure Partial where
  left : Nat
  low : Nat
  high : Nat
  bits : Nat

/-- What a byte says where a character may start. -/
inductive Lead where
  | char (c : Char)
  | sequence (p : Partial)
  | invalid

/-- The first bytes of the well-formed sequences. The narrower ranges after E0, ED, F0 and F4 keep
out overlong forms, surrogates and numbers above U+10FFFF. -/
def lead (byte : UInt8) : Lead :=
  let b := byte.toNat
  if b < 0x80 then .char (Char.ofNat b)
  else if b < 0xC2 then .invalid
  else if b < 0xE0 then .sequence ⟨1, 0x80, 0xBF, b - 0xC0⟩
  else if b = 0xE0 then .sequence ⟨2, 0xA0, 0xBF, b - 0xE0⟩
  else if b = 0xED then .sequence ⟨2, 0x80, 0x9F, b - 0xE0⟩
  else if b < 0xF0 then .sequence ⟨2, 0x80, 0xBF, b - 0xE0⟩
  else if b = 0xF0 then .sequence ⟨3, 0x90, 0xBF, b - 0xF0⟩
  else if b < 0xF4 then .sequence ⟨3, 0x80, 0xBF, b - 0xF0⟩
  else if b = 0xF4 then .sequence ⟨3, 0x80, 0x8F, b - 0xF0⟩
  else .invalid

/-- One byte at the start of a character: what it finishes, and what it begins. -/
def start (byte : UInt8) : List (Option Char) × Option Partial :=
  match lead byte with
  | .char c => ([some c], none)
  | .sequence p => ([], some p)
  | .invalid => ([none], none)

/-- One byte after the beginning `p` of a character. A byte that does not continue it ends a
maximal subpart and is read again as a first byte. -/
def Partial.continue (p : Partial) (byte : UInt8) : List (Option Char) × Option Partial :=
  if p.low ≤ byte.toNat ∧ byte.toNat ≤ p.high then
    let bits := p.bits * 64 + (byte.toNat - 0x80)
    if p.left ≤ 1 then ([some (Char.ofNat bits)], none)
    else ([], some ⟨p.left - 1, 0x80, 0xBF, bits⟩)
  else
    let (out, next) := start byte
    (none :: out, next)

/-- The characters and maximal subparts of the bytes, after the beginning `p` of a character. -/
def unitsAfter : Option Partial → Bytes → List (Option Char)
  | none, [] => []
  | some _, [] => [none]
  | none, b :: bs => (start b).1 ++ unitsAfter (start b).2 bs
  | some p, b :: bs => (p.continue b).1 ++ unitsAfter (p.continue b).2 bs

/-- The characters of a byte string, with `none` for each maximal subpart that is no character. -/
def units (bytes : Bytes) : List (Option Char) :=
  unitsAfter none bytes

/-- All of `units`, if every one is a character. -/
def allChars : List (Option Char) → Option (List Char)
  | [] => some []
  | none :: _ => none
  | some c :: rest => (allChars rest).map (c :: ·)

/-- The text of a byte string that is well-formed UTF-8. -/
def decode? (bytes : Bytes) : Option (List Char) :=
  allChars (units bytes)

/-- The text of a byte string, U+FFFD standing for each maximal subpart that is no character. -/
def lossy (bytes : Bytes) : List Char :=
  (units bytes).map (·.getD '\uFFFD')

theorem allChars_map_some (text : List Char) : allChars (text.map some) = some text := by
  induction text with
  | nil => rfl
  | cons c rest ih => simp [allChars, ih]

/-- Reading succeeds exactly when every unit is a character, and then gives those characters. -/
theorem allChars_eq_some_iff {us : List (Option Char)} {text : List Char} :
    allChars us = some text ↔ us = text.map some := by
  constructor
  · induction us generalizing text with
    | nil => rintro h; cases h; rfl
    | cons u rest ih =>
      cases u with
      | none => intro h; cases h
      | some c =>
        intro h
        obtain ⟨t, ht, rfl⟩ := Option.map_eq_some_iff.mp h
        rw [ih ht]; rfl
  · rintro rfl; exact allChars_map_some text

/-- On well-formed bytes the lossy text is the text. -/
theorem lossy_eq_of_decode? {bytes : Bytes} {text : List Char} (h : decode? bytes = some text) :
    lossy bytes = text := by
  rw [lossy, allChars_eq_some_iff.mp h, List.map_map]
  exact List.map_id' text

end Utf8

end Relink
