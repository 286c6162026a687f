import Relink.Json.Literal

/-!
# Tokens

The tokens of a JSON text, in order, as `from_json` and `package_main` come to read them. Reading never
fails by itself: where the text stops being JSON stands a last token `broken`, with the fault and with
whether a string was begun. So whoever reads the tokens meets the faults of the text and of its
arrangement in the order in which they stand, and the first one counts.
-/

namespace Relink.Json

/-- A token. -/
inductive Token where
  | openBrace
  | closeBrace
  | openBracket
  | closeBracket
  | comma
  | colon
  | null
  | bool (b : Bool)
  | number (n : Number)
  | string (text : String)
  /-- A text that is no token; `quote` says that it begins as a string. -/
  | broken (quote : Bool) (fault : Fault)
deriving DecidableEq, Repr

/-- How a token is written. -/
def Token.text : Token → List Char
  | .openBrace => ['\x7b']
  | .closeBrace => ['\x7d']
  | .openBracket => ['[']
  | .closeBracket => [']']
  | .comma => [',']
  | .colon => [':']
  | .null => "null".toList
  | .bool true => "true".toList
  | .bool false => "false".toList
  | .number n => n.text
  | .string s => '"' :: escaped s.toList ++ ['"']
  | .broken _ _ => []

/-- Blank characters stand between tokens. -/
def isBlank (c : Char) : Bool :=
  c == ' ' || c == '\n' || c == '\t' || c == '\r'

/-- The token `t`, if the letters `word` stand at the front of the text. -/
def wordOf (t : Token) : (word : List Char) → List Char → Token × List Char
  | [], rest => (t, rest)
  | _ :: _, [] => (.broken false .truncated, [])
  | w :: word, c :: rest => if c = w then wordOf t word rest else (.broken false .malformed, [])

/-- The token of a result, nothing being left after a fault. -/
def orBroken {α : Type} (quote : Bool) (token : α → Token) :
    Except Fault (α × List Char) → Token × List Char
  | .ok (a, rest) => (token a, rest)
  | .error f => (.broken quote f, [])

/-- The token that starts with the character `c`, and the rest of the text. -/
def tokenOf (c : Char) (rest : List Char) : Token × List Char :=
  match c with
  | '\x7b' => (.openBrace, rest)
  | '\x7d' => (.closeBrace, rest)
  | '[' => (.openBracket, rest)
  | ']' => (.closeBracket, rest)
  | ',' => (.comma, rest)
  | ':' => (.colon, rest)
  | 'n' => wordOf .null ['u', 'l', 'l'] rest
  | 't' => wordOf (.bool true) ['r', 'u', 'e'] rest
  | 'f' => wordOf (.bool false) ['a', 'l', 's', 'e'] rest
  | '"' => orBroken true (fun s => .string (String.ofList s)) (literalOf rest)
  | c =>
    if c = '-' ∨ c.isDigit then orBroken false .number (numberOf (c :: rest))
    else (.broken false .malformed, [])

theorem length_wordOf (t : Token) (word text : List Char) :
    (wordOf t word text).2.length ≤ text.length := by
  induction word generalizing text with
  | nil => exact Nat.le_refl _
  | cons w word ih =>
    cases text with
    | nil => exact Nat.le_refl _
    | cons c rest =>
      rw [wordOf]
      split
      · exact Nat.le_succ_of_le (ih rest)
      · exact Nat.zero_le _

theorem length_orBroken {α : Type} {quote : Bool} {token : α → Token}
    {r : Except Fault (α × List Char)} {n : Nat} (h : ∀ a rest, r = .ok (a, rest) → rest.length ≤ n) :
    (orBroken quote token r).2.length ≤ n := by
  unfold orBroken
  split
  · exact h _ _ rfl
  · exact Nat.zero_le _

/-- A token takes at least its first character. -/
theorem length_tokenOf (c : Char) (rest : List Char) : (tokenOf c rest).2.length ≤ rest.length := by
  unfold tokenOf
  split
  iterate 6 exact Nat.le_refl _
  iterate 3 exact length_wordOf _ _ _
  · exact length_orBroken fun _ _ h => Nat.le_of_lt (length_literalOf h)
  · split
    · exact length_orBroken fun _ _ h => Nat.le_of_lt_succ (length_numberOf h)
    · exact Nat.zero_le _

/-- The tokens of a text. -/
def tokens (text : List Char) : List Token :=
  match text with
  | [] => []
  | c :: rest =>
    if isBlank c then tokens rest
    else
      have : (tokenOf c rest).2.length ≤ rest.length := length_tokenOf c rest
      (tokenOf c rest).1 :: tokens (tokenOf c rest).2
termination_by text.length

end Relink.Json
