import Relink.Json.Number
import Relink.Text.Utf8

/-!
# String literals

The strings in the JSON that `from_json` and `package_main` read and that options and trees are
serialized to. `escaped` writes a text as it stands between the quotes of a JSON string, escaping only
what has to be; `literalOf` reads such a text up to its closing quote. A character beyond the basic
plane may be read from two `\u` escapes, a high surrogate and a low one; surrogates that are not so
paired are faults.
-/

namespace Relink.Json

/-- A hexadecimal digit in lowercase. -/
def hexDigit (n : Nat) : Char :=
  Nat.digitChar n

/-- A character between quotes: the quote, the backslash and the controls are escaped. -/
def escapedChar (c : Char) : List Char :=
  if c = '"' then ['\\', '"']
  else if c = '\\' then ['\\', '\\']
  else if c = '\x08' then ['\\', 'b']
  else if c = '\x0c' then ['\\', 'f']
  else if c = '\n' then ['\\', 'n']
  else if c = '\r' then ['\\', 'r']
  else if c = '\t' then ['\\', 't']
  else if c.toNat < 0x20 then
    ['\\', 'u', '0', '0', hexDigit (c.toNat / 16), hexDigit (c.toNat % 16)]
  else [c]

/-- A text between quotes. -/
def escaped (text : List Char) : List Char :=
  text.flatMap escapedChar

/-- The value of a hexadecimal digit. -/
def hexValue? (c : Char) : Option Nat :=
  if c.isDigit then some (c.toNat - '0'.toNat)
  else if 'a' ≤ c ∧ c ≤ 'f' then some (c.toNat - 'a'.toNat + 10)
  else if 'A' ≤ c ∧ c ≤ 'F' then some (c.toNat - 'A'.toNat + 10)
  else none

/-- The four hexadecimal digits of a `\u` escape and the rest. Fewer than four bytes are a text
that ends too early, whatever they are. -/
def unitOf (text : List Char) : Except Fault (Nat × List Char) :=
  if (Utf8.encode (text.take 4)).length < 4 then .error .truncated
  else match text with
    | a :: b :: c :: d :: rest =>
      match hexValue? a, hexValue? b, hexValue? c, hexValue? d with
      | some a, some b, some c, some d => .ok (((a * 16 + b) * 16 + c) * 16 + d, rest)
      | _, _, _, _ => .error .malformed
    | _ => .error .malformed

/-- The character of a surrogate pair. -/
def pairChar (high low : Nat) : Char :=
  Char.ofNat (0x10000 + (high - 0xD800) * 0x400 + (low - 0xDC00))

/-- The low surrogate that has to follow a high one, as the escape of a whole character. -/
def lowSurrogateOf (high : Nat) (text : List Char) : Except Fault (Char × List Char) :=
  match text with
  | [] => .error .truncated
  | ['\\'] => .error .truncated
  | '\\' :: 'u' :: rest =>
    (unitOf rest).bind fun (low, rest) =>
      if 0xDC00 ≤ low ∧ low ≤ 0xDFFF then .ok (pairChar high low, rest) else .error .malformed
  | _ => .error .malformed

/-- The character of a `\u` escape, from its first digit on, and the rest. -/
def unicodeEscapeOf (text : List Char) : Except Fault (Char × List Char) :=
  (unitOf text).bind fun (n, rest) =>
    if 0xDC00 ≤ n ∧ n ≤ 0xDFFF then .error .malformed
    else if 0xD800 ≤ n ∧ n ≤ 0xDBFF then lowSurrogateOf n rest
    else .ok (Char.ofNat n, rest)

/-- The character of an escape, from after the backslash on, and the rest. -/
def escapeOf : List Char → Except Fault (Char × List Char)
  | [] => .error .truncated
  | '"' :: rest => .ok ('"', rest)
  | '\\' :: rest => .ok ('\\', rest)
  | '/' :: rest => .ok ('/', rest)
  | 'b' :: rest => .ok ('\x08', rest)
  | 'f' :: rest => .ok ('\x0c', rest)
  | 'n' :: rest => .ok ('\n', rest)
  | 'r' :: rest => .ok ('\r', rest)
  | 't' :: rest => .ok ('\t', rest)
  | 'u' :: rest => unicodeEscapeOf rest
  | _ :: _ => .error .malformed

theorem length_unitOf {text : List Char} {n : Nat} {rest : List Char}
    (h : unitOf text = .ok (n, rest)) : rest.length < text.length := by
  unfold unitOf at h
  split at h
  · cases h
  · split at h
    · split at h
      · cases h; simp only [List.length_cons]; omega
      · cases h
    · cases h

theorem length_lowSurrogateOf {high : Nat} {text : List Char} {c : Char} {rest : List Char}
    (h : lowSurrogateOf high text = .ok (c, rest)) : rest.length < text.length := by
  unfold lowSurrogateOf at h
  split at h
  · cases h
  · cases h
  · next after =>
    cases hu : unitOf after with
    | error f => rw [hu] at h; cases h
    | ok r =>
      rw [hu] at h
      simp only [Except.bind] at h
      split at h
      · have e : r.2 = rest := congrArg Prod.snd (Except.ok.inj h)
        have := length_unitOf hu
        simp only [List.length_cons, ← e]
        omega
      · cases h
  · cases h

theorem length_unicodeEscapeOf {text : List Char} {c : Char} {rest : List Char}
    (h : unicodeEscapeOf text = .ok (c, rest)) : rest.length < text.length := by
  unfold unicodeEscapeOf at h
  cases hu : unitOf text with
  | error f => rw [hu] at h; cases h
  | ok r =>
    rw [hu] at h
    simp only [Except.bind] at h
    have := length_unitOf hu
    split at h
    · cases h
    · split at h
      · exact Nat.lt_trans (length_lowSurrogateOf h) this
      · cases h; exact this

/-- An escape takes at least one character. -/
theorem length_escapeOf {text : List Char} {c : Char} {rest : List Char}
    (h : escapeOf text = .ok (c, rest)) : rest.length < text.length := by
  unfold escapeOf at h
  split at h <;> first | cases h; done | skip
  all_goals first
    | (cases h; exact Nat.lt_succ_self _)
    | exact Nat.lt_succ_of_lt (length_unicodeEscapeOf h)

/-- The text of a literal, from after its opening quote on, and the rest after its closing quote.
Controls have to be escaped. -/
def literalOf (text : List Char) : Except Fault (List Char × List Char) :=
  match text with
  | [] => .error .truncated
  | c :: rest =>
    if c = '"' then .ok ([], rest)
    else if c = '\\' then
      match h : escapeOf rest with
      | .error f => .error f
      | .ok (e, after) =>
        have : after.length < rest.length := length_escapeOf h
        (literalOf after).map fun (s, rest) => (e :: s, rest)
    else if c.toNat < 0x20 then .error .malformed
    else (literalOf rest).map fun (s, rest) => (c :: s, rest)
termination_by text.length

/-- A literal takes at least its closing quote. -/
theorem length_literalOf {text s rest : List Char} (h : literalOf text = .ok (s, rest)) :
    rest.length < text.length := by
  fun_induction literalOf text generalizing s rest with
  | case1 => cases h
  | case2 => cases h; exact Nat.lt_succ_self _
  | case3 => cases h
  | case4 _ _ after _ _ _ ih =>
    cases hl : literalOf after with
    | error f => rw [hl] at h; cases h
    | ok r =>
      rw [hl] at h; cases h
      have := ih hl
      simp only [List.length_cons]
      omega
  | case5 => cases h
  | case6 c after _ _ _ ih =>
    cases hl : literalOf after with
    | error f => rw [hl] at h; cases h
    | ok r =>
      rw [hl] at h; cases h
      have := ih hl
      simp only [List.length_cons]
      omega

end Relink.Json
