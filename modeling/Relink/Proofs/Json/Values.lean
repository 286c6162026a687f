import Mathlib.Data.List.Basic
import Relink.Json.Value
import Relink.Proofs.Json.Tokens

/-!
# Written values are read again

`from_str` undoes `to_string`. The tokens of a value take the reader from where a value may start to
where it is complete, whatever is still open around it. So a value is read again from its tokens, if the
reader may go down far enough. Values without numerals are read again from their texts, too, and no two
of them have the same text.

Results:
* `run_toTokens`: what the tokens of a value do to a reader.
* `ofTokens_toTokens`: the value that the tokens of a value spell.
* `ofText_text`: the value that the text of a value spells.
* `text_inj`: no two values have the same text.
-/

namespace Relink.Json

variable {limit : Nat}

/-! ## Depth -/

mutual

/-- How deep arrays and objects lie inside one another. -/
def depth : Json → Nat
  | .array items => itemDepth items + 1
  | .object members => memberDepth members + 1
  | _ => 0

/-- The depth of the deepest item of an array. -/
def itemDepth : List Json → Nat
  | [] => 0
  | v :: rest => max v.depth (itemDepth rest)

/-- The depth of the deepest member of an object. -/
def memberDepth : List (String × Json) → Nat
  | [] => 0
  | (_, v) :: rest => max v.depth (memberDepth rest)

end

/-! ## Tokens of arrays and objects -/

theorem itemTokens_cons (v : Json) {rest : List Json} (h : rest ≠ []) :
    itemTokens (v :: rest) = v.toTokens ++ .comma :: itemTokens rest := by
  cases rest with
  | nil => exact absurd rfl h
  | cons w rest => rfl

theorem memberTokens_cons (k : String) (v : Json) {rest : List (String × Json)} (h : rest ≠ []) :
    memberTokens ((k, v) :: rest) =
      .string k :: .colon :: (v.toTokens ++ .comma :: memberTokens rest) := by
  cases rest with
  | nil => exact absurd rfl h
  | cons w rest => rfl

/-- An item does not begin with the end of the array. -/
theorem exists_itemTokens_eq_cons {items : List Json} (h : items ≠ []) :
    ∃ t rest, itemTokens items = t :: rest ∧ t ≠ .closeBracket := by
  cases items with
  | nil => exact absurd rfl h
  | cons v rest =>
    have hv : ∃ t ts, v.toTokens = t :: ts ∧ t ≠ .closeBracket := by
      cases v <;> exact ⟨_, _, rfl, by simp⟩
    obtain ⟨t, ts, hts, ht⟩ := hv
    rcases eq_or_ne rest [] with rfl | hrest
    · exact ⟨t, ts, hts, ht⟩
    · exact ⟨t, _, by rw [itemTokens_cons v hrest, hts, List.cons_append], ht⟩

/-! ## Reading tokens -/

theorem run_cons {s s' : State} {t : Token} (h : s.step limit t = .ok s') (rest : List Token) :
    (t :: rest).foldlM (State.step limit) s = rest.foldlM (State.step limit) s' := by
  rw [List.foldlM_cons, h]
  rfl

theorem run_append {s s' : State} {ts : List Token} (h : ts.foldlM (State.step limit) s = .ok s')
    (rest : List Token) :
    (ts ++ rest).foldlM (State.step limit) s = rest.foldlM (State.step limit) s' := by
  rw [List.foldlM_append, h]
  rfl

/-- Where a first item may stand, an item is read like any value. -/
theorem run_itemOrClose {items : List Json} (h : items ≠ []) (frames : List Frame)
    (rest : List Token) :
    (itemTokens items ++ rest).foldlM (State.step limit) ⟨.itemOrClose, frames⟩ =
      (itemTokens items ++ rest).foldlM (State.step limit) ⟨.value, frames⟩ := by
  obtain ⟨t, ts, hts, ht⟩ := exists_itemTokens_eq_cons h
  have hstep : State.step limit ⟨.itemOrClose, frames⟩ t = State.step limit ⟨.value, frames⟩ t := by
    rcases frames with _ | ⟨_ | _, frames⟩ <;> cases t <;> first | rfl | exact absurd rfl ht
  rw [hts, List.cons_append, List.foldlM_cons, List.foldlM_cons, hstep]

/-- Where a first key may stand, a key is read like any key. -/
theorem run_keyOrClose {members : List (String × Json)} (h : members ≠ []) (frames : List Frame)
    (rest : List Token) :
    (memberTokens members ++ rest).foldlM (State.step limit) ⟨.keyOrClose, frames⟩ =
      (memberTokens members ++ rest).foldlM (State.step limit) ⟨.key [], frames⟩ := by
  rcases members with _ | ⟨⟨k, v⟩, _ | ⟨m, members⟩⟩
  · exact absurd rfl h
  · rfl
  · rfl

mutual

/-- **The tokens of a value** take the reader to where the value is complete. -/
theorem run_toTokens (v : Json) (frames : List Frame) (h : frames.length + v.depth ≤ limit) :
    v.toTokens.foldlM (State.step limit) ⟨.value, frames⟩ = .ok ⟨.after v, frames⟩ := by
  cases v with
  | array items =>
    rw [depth] at h
    have hroom : frames.length < limit := by omega
    have hopen : State.step limit ⟨.value, frames⟩ .openBracket =
        .ok ⟨.itemOrClose, .array [] :: frames⟩ := if_pos hroom
    rw [toTokens, List.cons_append, run_cons hopen]
    rcases eq_or_ne items [] with rfl | hne
    · rfl
    · rw [run_itemOrClose hne]
      exact run_itemTokens items hne [] frames (by omega)
  | object members =>
    rw [depth] at h
    have hroom : frames.length < limit := by omega
    have hopen : State.step limit ⟨.value, frames⟩ .openBrace = .ok ⟨.keyOrClose, frames⟩ :=
      if_pos hroom
    rw [toTokens, List.cons_append, run_cons hopen]
    rcases eq_or_ne members [] with rfl | hne
    · rfl
    · rw [run_keyOrClose hne]
      exact run_memberTokens members hne [] frames (by omega)
  | _ => rfl

/-- The tokens of items and of the end of their array take the reader to where the array is complete,
with the items behind those that were read before. -/
theorem run_itemTokens (items : List Json) (hne : items ≠ []) (done : List Json)
    (frames : List Frame) (h : frames.length + 1 + itemDepth items ≤ limit) :
    (itemTokens items ++ [Token.closeBracket]).foldlM (State.step limit)
        ⟨.value, .array done :: frames⟩ =
      .ok ⟨.after (.array (done.reverse ++ items)), frames⟩ := by
  cases items with
  | nil => exact absurd rfl hne
  | cons v rest =>
    rw [itemDepth] at h
    have hv := run_toTokens v (.array done :: frames) (by rw [List.length_cons]; omega)
    rw [List.append_cons done.reverse, ← List.reverse_cons]
    rcases eq_or_ne rest [] with rfl | hrest
    · rw [itemTokens, run_append hv, List.append_nil]
      rfl
    · rw [itemTokens_cons v hrest, List.append_assoc, run_append hv]
      exact run_itemTokens rest hrest (v :: done) frames (by omega)

/-- The tokens of members and of the end of their object take the reader to where the object is
complete, with the members behind those that were read before. -/
theorem run_memberTokens (members : List (String × Json)) (hne : members ≠ [])
    (done : List (String × Json)) (frames : List Frame)
    (h : frames.length + 1 + memberDepth members ≤ limit) :
    (memberTokens members ++ [Token.closeBrace]).foldlM (State.step limit) ⟨.key done, frames⟩ =
      .ok ⟨.after (.object (done.reverse ++ members)), frames⟩ := by
  cases members with
  | nil => exact absurd rfl hne
  | cons m rest =>
    obtain ⟨k, v⟩ := m
    rw [memberDepth] at h
    have hv := run_toTokens v (.object done k :: frames) (by rw [List.length_cons]; omega)
    have hkey (ts : List Token) :
        (Token.string k :: Token.colon :: ts).foldlM (State.step limit) ⟨.key done, frames⟩ =
          ts.foldlM (State.step limit) ⟨.value, .object done k :: frames⟩ := rfl
    rw [List.append_cons done.reverse, ← List.reverse_cons]
    rcases eq_or_ne rest [] with rfl | hrest
    · rw [memberTokens, List.cons_append, List.cons_append, hkey, run_append hv, List.append_nil]
      rfl
    · rw [memberTokens_cons k v hrest, List.cons_append, List.cons_append, hkey, List.append_assoc,
        run_append hv]
      exact run_memberTokens rest hrest ((k, v) :: done) frames (by omega)

end

/-- **A value is read again from its tokens.** -/
theorem ofTokens_toTokens {v : Json} (h : v.depth ≤ limit) : ofTokens limit v.toTokens = .ok v := by
  unfold ofTokens State.start
  rw [run_toTokens v [] (by rw [List.length_nil]; omega)]
  rfl

/-! ## Reading texts -/

/-- The value holds no numerals, so its tokens can be told apart in its text. -/
def Closed (v : Json) : Prop :=
  ∀ t ∈ v.toTokens, t.Closed

theorem tokens_text {v : Json} (h : v.Closed) : tokens v.text.toList = v.toTokens := by
  unfold text
  rw [String.toList_ofList, tokens_flatMap_text h]

/-- **A value is read again from its text.** -/
theorem ofText_text {v : Json} (hclosed : v.Closed) (h : v.depth ≤ limit) :
    ofText limit v.text = .ok v := by
  unfold ofText
  rw [tokens_text hclosed, ofTokens_toTokens h]

/-- **No two values have the same text.** -/
theorem text_inj {v w : Json} (hv : v.Closed) (hw : w.Closed) : v.text = w.text ↔ v = w := by
  refine ⟨fun h => ?_, congrArg text⟩
  have hread := ofText_text hv (Nat.le_max_left v.depth w.depth)
  rw [h, ofText_text hw (Nat.le_max_right v.depth w.depth)] at hread
  exact (Except.ok.inj hread).symm

theorem closed_of_toTokens_eq {v : Json} {t : Token} (h : v.toTokens = [t]) (ht : t.Closed) :
    v.Closed := by
  unfold Closed
  rw [h]
  exact List.forall_mem_singleton.mpr ht

@[simp] theorem closed_null : Closed null :=
  closed_of_toTokens_eq rfl trivial

@[simp] theorem closed_bool (b : Bool) : Closed (bool b) :=
  closed_of_toTokens_eq rfl trivial

@[simp] theorem closed_string (s : String) : Closed (string s) :=
  closed_of_toTokens_eq rfl trivial

@[simp] theorem closed_array (items : List Json) :
    (array items).Closed ↔ ∀ v ∈ items, v.Closed := by
  have hitems : (∀ t ∈ itemTokens items, t.Closed) ↔ ∀ v ∈ items, v.Closed := by
    induction items with
    | nil => simp [itemTokens]
    | cons v rest ih =>
      rcases eq_or_ne rest [] with rfl | hne
      · simp [itemTokens, Closed]
      · rw [itemTokens_cons v hne, List.forall_mem_append, List.forall_mem_cons, ih]
        simp [Closed, Token.Closed]
  unfold Closed at hitems ⊢
  rw [toTokens, List.cons_append, List.forall_mem_cons, List.forall_mem_append, hitems]
  simp [Token.Closed]

@[simp] theorem closed_object (members : List (String × Json)) :
    (object members).Closed ↔ ∀ m ∈ members, m.2.Closed := by
  have hmembers : (∀ t ∈ memberTokens members, t.Closed) ↔ ∀ m ∈ members, m.2.Closed := by
    induction members with
    | nil => simp [memberTokens]
    | cons m rest ih =>
      obtain ⟨k, v⟩ := m
      rcases eq_or_ne rest [] with rfl | hne
      · simp [memberTokens, Closed, Token.Closed]
      · rw [memberTokens_cons k v hne, List.forall_mem_cons, List.forall_mem_cons,
          List.forall_mem_append, List.forall_mem_cons, ih]
        simp [Closed, Token.Closed]
  unfold Closed at hmembers ⊢
  rw [toTokens, List.cons_append, List.forall_mem_cons, List.forall_mem_append, hmembers]
  simp [Token.Closed]

end Relink.Json
