import Relink.Text.Utf8

/-!
# Text and its bytes determine each other

`Utf8.decode?` (`to_str`) reads bytes by a machine, `Utf8.encode` writes characters by a table. This
file says that the two are inverse to each other.

Results:
* `units_encode_append`: what was written is read back, whatever stands behind it.
* `decode?_eq_some_iff`: a byte string is the text `t` exactly when it is the encoding of `t`, so
  each text has one spelling.
* `lossy_append_dot`: a dot ends what is broken before it, so a name that is no text is shown with
  the dot and what follows it.
* `slash_notMem_lossy`: a name that is no text is not shown with a slash.
-/

namespace Relink.Utf8

/-! ## What a first byte announces -/

theorem lead_ascii {b : UInt8} (h : b.toNat < 0x80) : lead b = .char (Char.ofNat b.toNat) := by
  simp [lead, h]

theorem lead_two {b : UInt8} (h : 0xC2 ≤ b.toNat) (h' : b.toNat < 0xE0) :
    lead b = .sequence ⟨1, 0x80, 0xBF, b.toNat - 0xC0⟩ := by
  unfold lead
  rw [if_neg (by omega), if_neg (by omega), if_pos h']

/-- E0 and ED narrow the byte that follows them. -/
theorem lead_three {b : UInt8} (h : 0xE0 ≤ b.toNat) (h' : b.toNat < 0xF0) :
    lead b = .sequence ⟨2, if b.toNat = 0xE0 then 0xA0 else 0x80,
      if b.toNat = 0xED then 0x9F else 0xBF, b.toNat - 0xE0⟩ := by
  unfold lead
  rw [if_neg (by omega), if_neg (by omega), if_neg (by omega)]
  by_cases h0 : b.toNat = 0xE0
  · simp [h0]
  · by_cases hd : b.toNat = 0xED
    · simp [hd]
    · simp [h0, hd, h']

/-- F0 and F4 narrow the byte that follows them. -/
theorem lead_four {b : UInt8} (h : 0xF0 ≤ b.toNat) (h' : b.toNat < 0xF5) :
    lead b = .sequence ⟨3, if b.toNat = 0xF0 then 0x90 else 0x80,
      if b.toNat = 0xF4 then 0x8F else 0xBF, b.toNat - 0xF0⟩ := by
  unfold lead
  rw [if_neg (by omega), if_neg (by omega), if_neg (by omega), if_neg (by omega),
    if_neg (by omega), if_neg (by omega)]
  by_cases h0 : b.toNat = 0xF0
  · simp [h0]
  · by_cases h4 : b.toNat = 0xF4
    · simp [h4]
    · simp [h0, h4, show b.toNat < 0xF4 by omega]

theorem lead_invalid {b : UInt8} (h : 0x80 ≤ b.toNat ∧ b.toNat < 0xC2 ∨ 0xF5 ≤ b.toNat) :
    lead b = .invalid := by
  unfold lead
  rcases h with ⟨h, h'⟩ | h
  · rw [if_neg (by omega), if_pos h']
  · rw [if_neg (by omega), if_neg (by omega), if_neg (by omega), if_neg (by omega),
      if_neg (by omega), if_neg (by omega), if_neg (by omega), if_neg (by omega),
      if_neg (by omega)]

/-! ## The machine, byte by byte -/

theorem unitsAfter_sequence {b : UInt8} {p : Partial} (h : lead b = .sequence p) (bs : Bytes) :
    unitsAfter none (b :: bs) = unitsAfter (some p) bs := by
  simp [unitsAfter, start, h]

theorem unitsAfter_ascii {b : UInt8} (h : b.toNat < 0x80) (bs : Bytes) :
    unitsAfter none (b :: bs) = some (Char.ofNat b.toNat) :: unitsAfter none bs := by
  simp [unitsAfter, start, lead_ascii h]

/-- The last byte of a character finishes it. -/
theorem unitsAfter_last {low high bits : Nat} {b : UInt8} (h : low ≤ b.toNat ∧ b.toNat ≤ high)
    (bs : Bytes) :
    unitsAfter (some ⟨1, low, high, bits⟩) (b :: bs) =
      some (Char.ofNat (bits * 64 + (b.toNat - 0x80))) :: unitsAfter none bs := by
  simp [unitsAfter, Partial.continue, h.1, h.2]

/-- A byte before the last leaves one byte less to come. -/
theorem unitsAfter_more {left low high bits : Nat} {b : UInt8}
    (h : low ≤ b.toNat ∧ b.toNat ≤ high) (bs : Bytes) :
    unitsAfter (some ⟨left + 2, low, high, bits⟩) (b :: bs) =
      unitsAfter (some ⟨left + 1, 0x80, 0xBF, bits * 64 + (b.toNat - 0x80)⟩) bs := by
  simp [unitsAfter, Partial.continue, h.1, h.2]

/-! ## Reading what was written -/

/-- A character that was written is read back. -/
theorem unitsAfter_utf8EncodeChar (c : Char) (bs : Bytes) :
    unitsAfter none (String.utf8EncodeChar c ++ bs) = some c :: unitsAfter none bs := by
  have hv : c.val.toNat < 0xD800 ∨ 0xDFFF < c.val.toNat ∧ c.val.toNat < 0x110000 := c.valid
  have hc : Char.ofNat c.val.toNat = c := Char.ofNat_toNat c
  unfold String.utf8EncodeChar
  generalize c.val.toNat = v at hv hc
  dsimp only
  split
  · have h0 : (UInt8.ofNat v).toNat = v := by rw [UInt8.toNat_ofNat']; omega
    rw [List.singleton_append, unitsAfter_ascii (by omega), h0, hc]
  · split
    · have h0 : (UInt8.ofNat (v / 64 % 0x20 + 0xc0)).toNat = v / 64 + 0xc0 := by
        rw [UInt8.toNat_ofNat']; omega
      have h1 : (UInt8.ofNat (v % 0x40 + 0x80)).toNat = v % 64 + 0x80 := by
        rw [UInt8.toNat_ofNat']; omega
      rw [List.cons_append, List.singleton_append,
        unitsAfter_sequence (lead_two (by omega) (by omega)), unitsAfter_last (by omega), h0, h1,
        show (v / 64 + 0xc0 - 0xC0) * 64 + (v % 64 + 0x80 - 0x80) = v by omega, hc]
    · split
      · have h0 : (UInt8.ofNat (v / 4096 % 0x10 + 0xe0)).toNat = v / 4096 + 0xe0 := by
          rw [UInt8.toNat_ofNat']; omega
        have h1 : (UInt8.ofNat (v / 64 % 0x40 + 0x80)).toNat = v / 64 % 64 + 0x80 := by
          rw [UInt8.toNat_ofNat']; omega
        have h2 : (UInt8.ofNat (v % 0x40 + 0x80)).toNat = v % 64 + 0x80 := by
          rw [UInt8.toNat_ofNat']; omega
        rw [List.cons_append, List.cons_append, List.singleton_append,
          unitsAfter_sequence (lead_three (by omega) (by omega)),
          unitsAfter_more (by split <;> split <;> omega), unitsAfter_last (by omega), h0, h1, h2,
          show ((v / 4096 + 0xe0 - 0xE0) * 64 + (v / 64 % 64 + 0x80 - 0x80)) * 64
            + (v % 64 + 0x80 - 0x80) = v by omega, hc]
      · have h0 : (UInt8.ofNat (v / 262144 % 0x08 + 0xf0)).toNat = v / 262144 + 0xf0 := by
          rw [UInt8.toNat_ofNat']; omega
        have h1 : (UInt8.ofNat (v / 4096 % 0x40 + 0x80)).toNat = v / 4096 % 64 + 0x80 := by
          rw [UInt8.toNat_ofNat']; omega
        have h2 : (UInt8.ofNat (v / 64 % 0x40 + 0x80)).toNat = v / 64 % 64 + 0x80 := by
          rw [UInt8.toNat_ofNat']; omega
        have h3 : (UInt8.ofNat (v % 0x40 + 0x80)).toNat = v % 64 + 0x80 := by
          rw [UInt8.toNat_ofNat']; omega
        rw [List.cons_append, List.cons_append, List.cons_append, List.singleton_append,
          unitsAfter_sequence (lead_four (by omega) (by omega)),
          unitsAfter_more (by split <;> split <;> omega), unitsAfter_more (by omega),
          unitsAfter_last (by omega), h0, h1, h2, h3,
          show (((v / 262144 + 0xf0 - 0xF0) * 64 + (v / 4096 % 64 + 0x80 - 0x80)) * 64
            + (v / 64 % 64 + 0x80 - 0x80)) * 64 + (v % 64 + 0x80 - 0x80) = v by omega, hc]

/-- What was written is read back, whatever stands behind it. -/
theorem units_encode_append (text : List Char) (bs : Bytes) :
    units (encode text ++ bs) = text.map some ++ units bs := by
  induction text with
  | nil => rfl
  | cons c rest ih =>
    show unitsAfter none ((String.utf8EncodeChar c ++ encode rest) ++ bs) = _
    rw [List.append_assoc, unitsAfter_utf8EncodeChar]
    exact congrArg (some c :: ·) ih

theorem decode?_encode (text : List Char) : decode? (encode text) = some text := by
  have h := units_encode_append text []
  rw [List.append_nil] at h
  rw [decode?, h, show units [] = [] from rfl, List.append_nil, allChars_map_some]

/-! ## What is read was written -/

theorem toNat_val_ofNat {n : Nat} (h : n.isValidChar) : (Char.ofNat n).val.toNat = n := by
  rw [show Char.ofNat n = Char.ofNatAux n h from dif_pos h]
  rfl

theorem ofNat_eq_byte {n : Nat} {b : UInt8} (h : n = b.toNat) : UInt8.ofNat n = b := by
  rw [h, UInt8.ofNat_toNat]

theorem utf8EncodeChar_ascii {b : UInt8} (h : b.toNat < 0x80) :
    String.utf8EncodeChar (Char.ofNat b.toNat) = [b] := by
  unfold String.utf8EncodeChar
  rw [toNat_val_ofNat (Or.inl (by omega))]
  dsimp only
  rw [if_pos (by omega), UInt8.ofNat_toNat]

theorem utf8EncodeChar_two {b b1 : UInt8} (h : 0xC2 ≤ b.toNat ∧ b.toNat < 0xE0)
    (h1 : 0x80 ≤ b1.toNat ∧ b1.toNat ≤ 0xBF) :
    String.utf8EncodeChar (Char.ofNat ((b.toNat - 0xC0) * 64 + (b1.toNat - 0x80))) = [b, b1] := by
  unfold String.utf8EncodeChar
  rw [toNat_val_ofNat (Or.inl (by omega))]
  dsimp only
  rw [if_neg (by omega), if_pos (by omega), ofNat_eq_byte (b := b) (by omega),
    ofNat_eq_byte (b := b1) (by omega)]

theorem utf8EncodeChar_three {b b1 b2 : UInt8} (h : 0xE0 ≤ b.toNat ∧ b.toNat < 0xF0)
    (h1 : (if b.toNat = 0xE0 then 0xA0 else 0x80) ≤ b1.toNat ∧
      b1.toNat ≤ (if b.toNat = 0xED then 0x9F else 0xBF))
    (h2 : 0x80 ≤ b2.toNat ∧ b2.toNat ≤ 0xBF) :
    String.utf8EncodeChar
      (Char.ofNat (((b.toNat - 0xE0) * 64 + (b1.toNat - 0x80)) * 64 + (b2.toNat - 0x80))) =
      [b, b1, b2] := by
  -- The narrowed ranges as plain bounds: no overlong form, no surrogate.
  have hlow : 0x80 ≤ b1.toNat ∧ (b.toNat = 0xE0 → 0xA0 ≤ b1.toNat) := by
    split at h1 <;> omega
  have hhigh : b1.toNat ≤ 0xBF ∧ (b.toNat = 0xED → b1.toNat ≤ 0x9F) := by
    split at h1 <;> split at h1 <;> omega
  clear h1
  unfold String.utf8EncodeChar
  rw [toNat_val_ofNat (by unfold Nat.isValidChar; omega)]
  dsimp only
  rw [if_neg (by omega), if_neg (by omega), if_pos (by omega), ofNat_eq_byte (b := b) (by omega),
    ofNat_eq_byte (b := b1) (by omega), ofNat_eq_byte (b := b2) (by omega)]

theorem utf8EncodeChar_four {b b1 b2 b3 : UInt8} (h : 0xF0 ≤ b.toNat ∧ b.toNat < 0xF5)
    (h1 : (if b.toNat = 0xF0 then 0x90 else 0x80) ≤ b1.toNat ∧
      b1.toNat ≤ (if b.toNat = 0xF4 then 0x8F else 0xBF))
    (h2 : 0x80 ≤ b2.toNat ∧ b2.toNat ≤ 0xBF) (h3 : 0x80 ≤ b3.toNat ∧ b3.toNat ≤ 0xBF) :
    String.utf8EncodeChar
      (Char.ofNat ((((b.toNat - 0xF0) * 64 + (b1.toNat - 0x80)) * 64 + (b2.toNat - 0x80)) * 64 +
        (b3.toNat - 0x80))) = [b, b1, b2, b3] := by
  have hlow : 0x80 ≤ b1.toNat ∧ (b.toNat = 0xF0 → 0x90 ≤ b1.toNat) := by
    split at h1 <;> omega
  have hhigh : b1.toNat ≤ 0xBF ∧ (b.toNat = 0xF4 → b1.toNat ≤ 0x8F) := by
    split at h1 <;> split at h1 <;> omega
  clear h1
  unfold String.utf8EncodeChar
  rw [toNat_val_ofNat (by unfold Nat.isValidChar; omega)]
  dsimp only
  rw [if_neg (by omega), if_neg (by omega), if_neg (by omega), ofNat_eq_byte (b := b) (by omega),
    ofNat_eq_byte (b := b1) (by omega), ofNat_eq_byte (b := b2) (by omega),
    ofNat_eq_byte (b := b3) (by omega)]

/-- A character that was begun is broken unless a byte in range follows. -/
theorem exists_continuation {p : Partial} {bs : Bytes} {text : List Char}
    (h : unitsAfter (some p) bs = text.map some) :
    ∃ b rest, bs = b :: rest ∧ p.low ≤ b.toNat ∧ b.toNat ≤ p.high := by
  cases bs with
  | nil => cases text <;> simp [unitsAfter] at h
  | cons b rest =>
    refine ⟨b, rest, rfl, Decidable.byContradiction fun hb => ?_⟩
    simp only [unitsAfter, Partial.continue, if_neg hb] at h
    cases text <;> simp at h

/-- Bytes all of whose units are characters are the encoding of those characters. -/
theorem eq_encode_of_units : ∀ (bs : Bytes) (text : List Char),
    unitsAfter none bs = text.map some → bs = encode text
  | [], text, h => by
    cases text with
    | nil => rfl
    | cons c rest => simp [unitsAfter] at h
  | b :: bs, text, h => by
    have finish : ∀ (c : Char) (bytes rest : Bytes), rest.length < (b :: bs).length →
        String.utf8EncodeChar c = bytes → some c :: unitsAfter none rest = text.map some →
        bytes ++ rest = encode text := by
      intro c bytes rest hlen hc ht
      cases text with
      | nil => simp at ht
      | cons d text =>
        rw [List.map_cons, List.cons.injEq, Option.some.injEq] at ht
        rw [eq_encode_of_units rest text ht.2, ← hc, ht.1]
        rfl
    by_cases h1 : b.toNat < 0x80
    · rw [unitsAfter_ascii h1] at h
      exact finish _ [b] bs (by simp) (utf8EncodeChar_ascii h1) h
    by_cases hi : b.toNat < 0xC2 ∨ 0xF5 ≤ b.toNat
    · rw [unitsAfter, start, lead_invalid (by omega)] at h
      cases text <;> simp at h
    by_cases h2 : b.toNat < 0xE0
    · rw [unitsAfter_sequence (lead_two (by omega) h2)] at h
      obtain ⟨b1, rest, rfl, hb1⟩ := exists_continuation h
      rw [unitsAfter_last hb1] at h
      exact finish _ [b, b1] rest (by simp only [List.length_cons]; omega)
        (utf8EncodeChar_two ⟨by omega, h2⟩ hb1) h
    by_cases h3 : b.toNat < 0xF0
    · rw [unitsAfter_sequence (lead_three (by omega) h3)] at h
      obtain ⟨b1, rest1, rfl, hb1⟩ := exists_continuation h
      rw [unitsAfter_more hb1] at h
      obtain ⟨b2, rest, rfl, hb2⟩ := exists_continuation h
      rw [unitsAfter_last hb2] at h
      exact finish _ [b, b1, b2] rest (by simp only [List.length_cons]; omega)
        (utf8EncodeChar_three ⟨by omega, h3⟩ hb1 hb2) h
    · rw [unitsAfter_sequence (lead_four (by omega) (by omega))] at h
      obtain ⟨b1, rest1, rfl, hb1⟩ := exists_continuation h
      rw [unitsAfter_more hb1] at h
      obtain ⟨b2, rest2, rfl, hb2⟩ := exists_continuation h
      rw [unitsAfter_more hb2] at h
      obtain ⟨b3, rest, rfl, hb3⟩ := exists_continuation h
      rw [unitsAfter_last hb3] at h
      exact finish _ [b, b1, b2, b3] rest (by simp only [List.length_cons]; omega)
        (utf8EncodeChar_four ⟨by omega, by omega⟩ hb1 hb2 hb3) h
termination_by bs => bs.length
decreasing_by exact hlen

/-- **Each text has one spelling**, and only spellings of texts are read. -/
theorem decode?_eq_some_iff {bs : Bytes} {text : List Char} :
    decode? bs = some text ↔ bs = encode text := by
  constructor
  · intro h
    exact eq_encode_of_units bs text (allChars_eq_some_iff.mp h)
  · rintro rfl
    exact decode?_encode text

/-- The byte string is well-formed. -/
def Valid (bs : Bytes) : Prop := ∃ text, bs = encode text

theorem valid_iff_decode? {bs : Bytes} : Valid bs ↔ (decode? bs).isSome = true := by
  rw [Option.isSome_iff_exists]
  exact exists_congr fun _ => decode?_eq_some_iff.symm

theorem lossy_encode (text : List Char) : lossy (encode text) = text :=
  lossy_eq_of_decode? (decode?_encode text)

/-- Texts with the same bytes are the same. -/
theorem encode_inj {s t : List Char} : encode s = encode t ↔ s = t := by
  refine ⟨fun h => ?_, congrArg encode⟩
  rw [← lossy_encode s, h, lossy_encode]

theorem encode_lossy {bs : Bytes} (h : Valid bs) : encode (lossy bs) = bs := by
  obtain ⟨text, rfl⟩ := h
  rw [lossy_encode]

/-! ## Bytes of ASCII stand for themselves -/

/-- What a first byte begins, and each byte after it leaves: a byte above ASCII has to follow, and
the character will lie above ASCII. -/
structure Partial.Begun (p : Partial) : Prop where
  low_ge : 0x80 ≤ p.low
  large : 2 ≤ p.bits ∨ 2 ≤ p.left ∧ 2 ≤ p.bits * 64 + (p.low - 0x80)

/-- A byte where a character may start is an ASCII character, or broken, or begins a sequence. -/
theorem start_cases (b : UInt8) :
    (b.toNat < 0x80 ∧ start b = ([some (Char.ofNat b.toNat)], none)) ∨
      start b = ([none], none) ∨ ∃ p : Partial, p.Begun ∧ start b = ([], some p) := by
  unfold start
  by_cases h1 : b.toNat < 0x80
  · rw [lead_ascii h1]
    exact Or.inl ⟨h1, rfl⟩
  by_cases hi : b.toNat < 0xC2 ∨ 0xF5 ≤ b.toNat
  · rw [lead_invalid (by omega)]
    exact Or.inr (Or.inl rfl)
  refine Or.inr (Or.inr ?_)
  by_cases h2 : b.toNat < 0xE0
  · rw [lead_two (by omega) h2]
    exact ⟨_, ⟨Nat.le_refl _, Or.inl (by dsimp only; omega)⟩, rfl⟩
  by_cases h3 : b.toNat < 0xF0
  · rw [lead_three (by omega) h3]
    exact ⟨_, ⟨by dsimp only; split <;> omega,
      Or.inr ⟨Nat.le_refl _, by dsimp only; split <;> omega⟩⟩, rfl⟩
  · rw [lead_four (by omega) (by omega)]
    exact ⟨_, ⟨by dsimp only; split <;> omega,
      Or.inr ⟨by dsimp only; omega, by dsimp only; split <;> omega⟩⟩, rfl⟩

theorem begun_of_start {b : UInt8} {p : Partial} (h : (start b).2 = some p) : p.Begun := by
  rcases start_cases b with ⟨-, e⟩ | e | ⟨q, hq, e⟩
  · rw [e] at h; cases h
  · rw [e] at h; cases h
  · rw [e] at h; cases h; exact hq

theorem begun_of_continue {p q : Partial} {b : UInt8} (hp : p.Begun)
    (h : (p.continue b).2 = some q) : q.Begun := by
  unfold Partial.continue at h
  split at h
  · dsimp only at h
    split at h
    · cases h
    · cases h
      have hlarge := hp.large
      exact ⟨Nat.le_refl _, Or.inl (by dsimp only; omega)⟩
  · exact begun_of_start h

/-- An ASCII byte is read on its own, whatever was begun before it. -/
theorem unitsAfter_append_ascii {b : UInt8} (hb : b.toNat < 0x80) (rest : Bytes) :
    ∀ (bs : Bytes) (begun : Option Partial), (∀ p, begun = some p → p.Begun) →
      unitsAfter begun (bs ++ b :: rest) = unitsAfter begun bs ++ unitsAfter none (b :: rest)
  | [], none, _ => rfl
  | [], some p, h => by
    have hp := (h p rfl).low_ge
    simp only [List.nil_append, unitsAfter, Partial.continue,
      if_neg (show ¬ (p.low ≤ b.toNat ∧ b.toNat ≤ p.high) by omega)]
    rfl
  | c :: bs, none, _ => by
    simp only [List.cons_append, unitsAfter, List.append_assoc]
    rw [unitsAfter_append_ascii hb rest bs _ fun p hp => begun_of_start hp]
    rfl
  | c :: bs, some q, h => by
    simp only [List.cons_append, unitsAfter, List.append_assoc]
    rw [unitsAfter_append_ascii hb rest bs _ fun p hp => begun_of_continue (h q rfl) hp]
    rfl

/-- **A dot ends what is broken before it**: a text that starts with a dot is shown as it is, also
behind bytes that are no text. -/
theorem lossy_append_dot (bs : Bytes) (text : List Char) :
    lossy (bs ++ encode ('.' :: text)) = lossy bs ++ '.' :: text := by
  have h := unitsAfter_append_ascii (b := 0x2E) (by decide) (encode text) bs none (by simp)
  have hdot : unitsAfter none ((0x2E : UInt8) :: encode text) = ('.' :: text).map some := by
    have := units_encode_append ('.' :: text) []
    rw [List.append_nil] at this
    exact this.trans (List.append_nil _)
  unfold lossy units
  rw [show encode ('.' :: text) = (0x2E : UInt8) :: encode text from rfl, h, hdot,
    List.map_append, List.map_map]
  exact congrArg (_ ++ ·) (List.map_id' _)

/-- A byte string that is shown without U+FFFD is a text. -/
theorem valid_of_lossy {bs : Bytes} (h : '\uFFFD' ∉ lossy bs) : Valid bs := by
  refine ⟨lossy bs, eq_encode_of_units bs _ ?_⟩
  unfold lossy at h ⊢
  rw [List.map_map]
  refine (List.map_id' _).symm.trans (List.map_congr_left fun u hu => ?_)
  cases u with
  | none => exact absurd (List.mem_map.mpr ⟨none, hu, rfl⟩) h
  | some c => rfl

theorem lossy_ne_nil {bs : Bytes} (h : bs ≠ []) : lossy bs ≠ [] := by
  intro e
  have hvalid : Valid bs := valid_of_lossy (e ▸ List.not_mem_nil)
  exact h (by rw [← encode_lossy hvalid, e]; rfl)

theorem ofNat_ne_slash {n : Nat} (h : 0x80 ≤ n) : Char.ofNat n ≠ '/' := by
  intro e
  have hn := congrArg (fun c => c.val.toNat) e
  by_cases hvalid : n.isValidChar
  · rw [toNat_val_ofNat hvalid, show '/'.val.toNat = 0x2F from rfl] at hn
    omega
  · rw [show Char.ofNat n = '\x00' from dif_neg hvalid] at hn
    cases hn

theorem eq_slash_of_mem_start {b : UInt8} (h : some '/' ∈ (start b).1) : b = 0x2F := by
  rcases start_cases b with ⟨hb, e⟩ | e | ⟨p, -, e⟩
  · rw [e, List.mem_singleton, Option.some.injEq] at h
    have hn := congrArg (fun c => c.val.toNat) h
    rw [toNat_val_ofNat (n := b.toNat) (Or.inl (by omega))] at hn
    exact UInt8.toNat_inj.mp hn.symm
  · rw [e] at h; cases List.mem_singleton.mp h
  · rw [e] at h; exact absurd h List.not_mem_nil

theorem eq_slash_of_mem_continue {b : UInt8} {p : Partial} (hp : p.Begun)
    (h : some '/' ∈ (p.continue b).1) : b = 0x2F := by
  unfold Partial.continue at h
  split at h
  · dsimp only at h
    split at h
    · have hlarge := hp.large
      exact absurd (Option.some.inj (List.mem_singleton.mp h)).symm (ofNat_ne_slash (by omega))
    · exact absurd h List.not_mem_nil
  · rcases List.mem_cons.mp h with h | h
    · cases h
    · exact eq_slash_of_mem_start h

theorem slash_mem_of_unitsAfter : ∀ (bs : Bytes) (begun : Option Partial),
    (∀ p, begun = some p → p.Begun) → some '/' ∈ unitsAfter begun bs → (0x2F : UInt8) ∈ bs
  | [], none, _, h => absurd h List.not_mem_nil
  | [], some _, _, h => by cases List.mem_singleton.mp h
  | b :: bs, none, _, h => by
    rcases List.mem_append.mp h with h | h
    · exact eq_slash_of_mem_start h ▸ List.mem_cons_self
    · exact List.mem_cons_of_mem b
        (slash_mem_of_unitsAfter bs _ (fun p hp => begun_of_start hp) h)
  | b :: bs, some q, hq, h => by
    rcases List.mem_append.mp h with h | h
    · exact eq_slash_of_mem_continue (hq q rfl) h ▸ List.mem_cons_self
    · exact List.mem_cons_of_mem b
        (slash_mem_of_unitsAfter bs _ (fun p hp => begun_of_continue (hq q rfl) hp) h)

/-- **A slash is shown for a slash only**, also where bytes are no text. -/
theorem slash_notMem_lossy {bs : Bytes} (h : (0x2F : UInt8) ∉ bs) : '/' ∉ lossy bs := by
  intro hm
  obtain ⟨u, hu, he⟩ := List.mem_map.mp hm
  cases u with
  | none => cases he
  | some c =>
    cases he
    exact h (slash_mem_of_unitsAfter bs none (by simp) hu)

/-! ## Concatenation -/

theorem encode_append (s t : List Char) : encode (s ++ t) = encode s ++ encode t :=
  List.flatMap_append

theorem valid_nil : Valid [] := ⟨[], rfl⟩

theorem valid_append {a b : Bytes} (ha : Valid a) (hb : Valid b) : Valid (a ++ b) := by
  obtain ⟨s, rfl⟩ := ha
  obtain ⟨t, rfl⟩ := hb
  exact ⟨s ++ t, (encode_append s t).symm⟩

end Relink.Utf8
