import Relink.Json.Token

/-!
# Written tokens are read again

What the JSON library's `to_string` writes, its `from_str` reads again, and first of all the tokens.
Tokens that are written one after another, with nothing between them, are read as the same tokens. The
numerals are left out: a numeral ends where the next token begins, so two of them in a row would run
into one.

Results:
* `literalOf_escaped`: a text between quotes is read again, whatever its characters.
* `tokens_text_append`: a token is read off the front of a text.
* `tokens_flatMap_text`: the tokens of written tokens.
-/

namespace Relink

theorem Utf8.length_le_length_encode (text : List Char) : text.length ≤ (encode text).length := by
  induction text with
  | nil => exact Nat.le_refl _
  | cons c rest ih =>
    have hpos := c.utf8Size_pos
    unfold encode at ih ⊢
    rw [List.flatMap_cons, List.length_append, String.length_utf8EncodeChar, List.length_cons]
    omega

namespace Json

/-! ## String literals -/

theorem hexValue?_hexDigit : ∀ n < 16, hexValue? (hexDigit n) = some n := by
  decide

/-- A control is read from the digits of its code point. -/
theorem unicodeEscapeOf_control {c : Char} (h : c.toNat < 0x20) (rest : List Char) :
    unicodeEscapeOf ('0' :: '0' :: hexDigit (c.toNat / 16) :: hexDigit (c.toNat % 16) :: rest) =
      .ok (c, rest) := by
  have hunit : unitOf ('0' :: '0' :: hexDigit (c.toNat / 16) :: hexDigit (c.toNat % 16) :: rest) =
      .ok (c.toNat, rest) := by
    have hlength : 4 ≤ (Utf8.encode (List.take 4 ('0' :: '0' :: hexDigit (c.toNat / 16) ::
        hexDigit (c.toNat % 16) :: rest))).length :=
      Utf8.length_le_length_encode ['0', '0', hexDigit (c.toNat / 16), hexDigit (c.toNat % 16)]
    have hzero : hexValue? '0' = some 0 := rfl
    have hhigh := hexValue?_hexDigit (c.toNat / 16) (by omega)
    have hlow := hexValue?_hexDigit (c.toNat % 16) (by omega)
    have hsum : ((0 * 16 + 0) * 16 + c.toNat / 16) * 16 + c.toNat % 16 = c.toNat := by omega
    unfold unitOf
    rw [if_neg (Nat.not_lt_of_le hlength)]
    simp only [hzero, hhigh, hlow, hsum]
  unfold unicodeEscapeOf
  rw [hunit]
  simp only [Except.bind]
  rw [if_neg (by omega), if_neg (by omega), Char.ofNat_toNat]

theorem literalOf_escape {c : Char} {text rest : List Char} (h : escapeOf text = .ok (c, rest)) :
    literalOf ('\\' :: text) = (literalOf rest).map fun (s, rest) => (c :: s, rest) := by
  rw [literalOf, if_neg (by decide), if_pos rfl]
  split
  · next f hf => cases h.symm.trans hf
  · next e after he => cases h.symm.trans he; rfl

/-- A character between quotes is read again. -/
theorem literalOf_escapedChar (c : Char) (rest : List Char) :
    literalOf (escapedChar c ++ rest) = (literalOf rest).map fun (s, rest) => (c :: s, rest) := by
  unfold escapedChar
  by_cases hquote : c = '"'
  · subst hquote; exact literalOf_escape rfl
  by_cases hbackslash : c = '\\'
  · subst hbackslash; exact literalOf_escape rfl
  rw [if_neg hquote, if_neg hbackslash]
  iterate 5
    split
    · next h => subst h; exact literalOf_escape rfl
  split
  · next h => exact literalOf_escape (unicodeEscapeOf_control h rest)
  · next h =>
    rw [List.singleton_append, literalOf, if_neg hquote, if_neg hbackslash, if_neg h]

/-- **A text between quotes is read again.** -/
theorem literalOf_escaped (text rest : List Char) :
    literalOf (escaped text ++ '"' :: rest) = .ok (text, rest) := by
  induction text with
  | nil => rw [escaped, List.flatMap_nil, List.nil_append, literalOf, if_pos rfl]
  | cons c text ih =>
    unfold escaped at ih ⊢
    rw [List.flatMap_cons, List.append_assoc, literalOf_escapedChar, ih]
    rfl

/-! ## Tokens -/

theorem tokens_cons {c : Char} (h : isBlank c = false) (rest : List Char) :
    tokens (c :: rest) = (tokenOf c rest).1 :: tokens (tokenOf c rest).2 := by
  rw [tokens, h, if_neg Bool.false_ne_true]

/-- The end of the token can be told without what follows. -/
def Token.Closed : Token → Prop
  | .number _ | .broken _ _ => False
  | _ => True

/-- **A token is read off the front of a text.** -/
theorem tokens_text_append {t : Token} (h : t.Closed) (rest : List Char) :
    tokens (t.text ++ rest) = t :: tokens rest := by
  cases t with
  | number n => exact h.elim
  | broken quote fault => exact h.elim
  | string s =>
    have hread : tokenOf '"' (escaped s.toList ++ ('"' :: rest)) = (.string s, rest) := by
      show orBroken true _ (literalOf _) = _
      rw [literalOf_escaped, orBroken, String.ofList_toList]
    have htext : (Token.string s).text ++ rest = '"' :: (escaped s.toList ++ ('"' :: rest)) := by
      show '"' :: (escaped s.toList ++ ['"']) ++ rest = _
      rw [List.cons_append, List.append_assoc, List.singleton_append]
    rw [htext, tokens_cons rfl, hread]
  | bool b => cases b <;> exact tokens_cons rfl _
  | _ => exact tokens_cons rfl _

/-- **Written tokens are read again.** -/
theorem tokens_flatMap_text {ts : List Token} (h : ∀ t ∈ ts, t.Closed) :
    tokens (ts.flatMap Token.text) = ts := by
  induction ts with
  | nil => rw [List.flatMap_nil, tokens]
  | cons t rest ih =>
    obtain ⟨ht, hrest⟩ := List.forall_mem_cons.mp h
    rw [List.flatMap_cons, tokens_text_append ht, ih hrest]

end Json

end Relink
