import Relink.Path.Normal
import Relink.Proofs.Text.RoundTrip

/-!
# Segments and steps

`Path.segments` cuts a byte string at its slashes and `Path.steps` keeps the segments that lead
somewhere, as `components` does. Everything later reads a path through its steps, so this file says how
the two behave under the edits that paths are made by.

Results:
* `segments_append_slash`, `segments_unsegments`: cutting undoes joining.
* `steps_append_slash`, `steps_unsegments`: steps of a joined byte string are the steps of its parts.
* `opening_cases`: a path opens at the root, at a dot, or with its body at once.
* `components_eq`: a path is its opening and the steps of all its bytes.
* `valid_of_mem_segments`, `valid_unsegments`: a byte string is a text when its segments are.
-/

namespace Relink

/-- Something that is not empty and one thing more make a pair only if each is one. -/
theorem append_cons_eq_pair {α : Type} {xs ys : List α} {a b c : α} (hne : xs ≠ [])
    (h : xs ++ c :: ys = [a, b]) : xs = [a] ∧ ys = [] := by
  obtain ⟨x, rest, rfl⟩ := List.exists_cons_of_ne_nil hne
  rw [List.cons_append, List.cons.injEq] at h
  cases rest with
  | nil => exact ⟨by rw [h.1], (List.cons.inj h.2).2⟩
  | cons y rest => simp at h

namespace Path

/-! ## Cutting at slashes -/

theorem segments_slash_cons (bs : Bytes) : segments (slash :: bs) = [] :: segments bs := by
  rw [segments, if_pos rfl]

theorem segments_cons_of_ne {b : UInt8} (h : b ≠ slash) (bs : Bytes) :
    segments (b :: bs) = (segments bs).modifyHead (b :: ·) := by
  rw [segments, if_neg h]
  cases hs : segments bs with
  | nil => exact absurd hs (segments_ne_nil bs)
  | cons s rest => rfl

theorem segments_append_slash (a b : Bytes) :
    segments (a ++ slash :: b) = segments a ++ segments b := by
  induction a with
  | nil => exact segments_slash_cons b
  | cons c a ih =>
    by_cases h : c = slash
    · subst h
      rw [List.cons_append, segments_slash_cons, ih, segments_slash_cons, List.cons_append]
    · rw [List.cons_append, segments_cons_of_ne h, ih, segments_cons_of_ne h]
      cases hs : segments a with
      | nil => exact absurd hs (segments_ne_nil a)
      | cons s rest => rfl

theorem segments_append_of_notMem {a : Bytes} (h : slash ∉ a) (bs : Bytes) :
    segments (a ++ bs) = (segments bs).modifyHead (a ++ ·) := by
  induction a with
  | nil =>
    rw [List.nil_append]
    cases segments bs <;> rfl
  | cons c a ih =>
    rw [List.mem_cons, not_or] at h
    rw [List.cons_append, segments_cons_of_ne (Ne.symm h.1), ih h.2]
    cases segments bs <;> rfl

theorem segments_of_notMem {s : Bytes} (h : slash ∉ s) : segments s = [s] := by
  have := segments_append_of_notMem h []
  rwa [List.append_nil, show segments [] = [[]] from rfl, List.modifyHead_cons,
    List.append_nil] at this

theorem slash_notMem_of_mem_segments {bs s : Bytes} (h : s ∈ segments bs) : slash ∉ s := by
  induction bs generalizing s with
  | nil => cases List.mem_singleton.mp h; exact List.not_mem_nil
  | cons b bs ih =>
    by_cases hb : b = slash
    · subst hb
      rw [segments_slash_cons] at h
      rcases List.mem_cons.mp h with rfl | h
      · exact List.not_mem_nil
      · exact ih h
    · rw [segments_cons_of_ne hb] at h
      cases hs : segments bs with
      | nil => exact absurd hs (segments_ne_nil bs)
      | cons t rest =>
        rw [hs] at h ih
        rcases List.mem_cons.mp h with rfl | h
        · rw [List.mem_cons, not_or]
          exact ⟨Ne.symm hb, ih List.mem_cons_self⟩
        · exact ih (List.mem_cons_of_mem t h)

/-- Cutting undoes joining. -/
theorem segments_unsegments {segs : List Bytes} (hne : segs ≠ []) (h : ∀ s ∈ segs, slash ∉ s) :
    segments (unsegments segs) = segs := by
  induction segs with
  | nil => exact absurd rfl hne
  | cons s rest ih =>
    cases rest with
    | nil => exact segments_of_notMem (h s List.mem_cons_self)
    | cons t rest =>
      show segments (s ++ slash :: unsegments (t :: rest)) = _
      rw [segments_append_slash, segments_of_notMem (h s List.mem_cons_self),
        ih (by simp) fun u hu => h u (List.mem_cons_of_mem s hu)]
      rfl

/-! ## Names -/

/-- A segment that names an entry of a directory. -/
structure Plain (n : Bytes) : Prop where
  ne_nil : n ≠ []
  ne_dot : n ≠ dot
  ne_dotDot : n ≠ dotDot
  slash_notMem : slash ∉ n

instance (n : Bytes) : Decidable (Plain n) :=
  decidable_of_iff (n ≠ [] ∧ n ≠ dot ∧ n ≠ dotDot ∧ slash ∉ n)
    ⟨fun h => ⟨h.1, h.2.1, h.2.2.1, h.2.2.2⟩,
      fun h => ⟨h.ne_nil, h.ne_dot, h.ne_dotDot, h.slash_notMem⟩⟩

theorem Plain.ofSegment? {n : Bytes} (h : Plain n) : Component.ofSegment? n = some (.name n) := by
  unfold Component.ofSegment?
  rw [if_neg (by rw [not_or]; exact ⟨h.ne_nil, h.ne_dot⟩), if_neg h.ne_dotDot]

theorem ofSegment?_dotDot : Component.ofSegment? dotDot = some .parent := rfl

/-- What a segment without slash leads to. -/
theorem ofSegment?_eq_some {s : Bytes} (hs : slash ∉ s) {c : Component}
    (h : Component.ofSegment? s = some c) : c = .parent ∨ c = .name s ∧ Plain s := by
  unfold Component.ofSegment? at h
  split at h
  · cases h
  · next h1 =>
    rw [not_or] at h1
    split at h
    · cases h; exact Or.inl rfl
    · next h2 => cases h; exact Or.inr ⟨rfl, h1.1, h1.2, h2, hs⟩

/-! ## Steps -/

/-- The steps that a byte string spells behind an opening. -/
def steps (bs : Bytes) : List Component :=
  (segments bs).filterMap Component.ofSegment?

theorem steps_nil : steps [] = [] := rfl

theorem steps_append_slash (a b : Bytes) : steps (a ++ slash :: b) = steps a ++ steps b := by
  rw [steps, segments_append_slash, List.filterMap_append]
  rfl

theorem steps_slash_cons (bs : Bytes) : steps (slash :: bs) = steps bs :=
  steps_append_slash [] bs

theorem steps_unsegments {segs : List Bytes} (h : ∀ s ∈ segs, slash ∉ s) :
    steps (unsegments segs) = segs.filterMap Component.ofSegment? := by
  cases segs with
  | nil => rfl
  | cons s rest => rw [steps, segments_unsegments (by simp) h]

theorem steps_of_notMem {s : Bytes} (h : slash ∉ s) :
    steps s = (Component.ofSegment? s).toList := by
  rw [steps, segments_of_notMem h, List.filterMap_cons]
  cases Component.ofSegment? s <;> rfl

theorem filterMap_plain {names : List Bytes} (h : ∀ n ∈ names, Plain n) :
    names.filterMap Component.ofSegment? = names.map .name := by
  induction names with
  | nil => rfl
  | cons n rest ih =>
    rw [List.filterMap_cons_some (h n List.mem_cons_self).ofSegment?,
      ih fun m hm => h m (List.mem_cons_of_mem n hm), List.map_cons]

/-- Steps go to the parent or to a plain name. -/
theorem mem_steps {bs : Bytes} {c : Component} (h : c ∈ steps bs) :
    c = .parent ∨ ∃ n ∈ segments bs, c = .name n ∧ Plain n := by
  obtain ⟨s, hs, hc⟩ := List.mem_filterMap.mp h
  rcases ofSegment?_eq_some (slash_notMem_of_mem_segments hs) hc with h | h
  · exact Or.inl h
  · exact Or.inr ⟨s, hs, h⟩

/-- After a first segment that is a dot comes a slash, or nothing. -/
theorem exists_of_head?_segments_eq_dot {bs : Bytes} (h : (segments bs).head? = some dot) :
    ∃ rest segs, bs = 0x2E :: rest ∧ segments rest = [] :: segs := by
  cases bs with
  | nil => cases h
  | cons b bs =>
    by_cases hb : b = slash
    · subst hb
      rw [segments_slash_cons] at h
      cases h
    · rw [segments_cons_of_ne hb] at h
      cases hs : segments bs with
      | nil => exact absurd hs (segments_ne_nil bs)
      | cons s segs =>
        rw [hs] at h
        simp only [List.modifyHead_cons, List.head?_cons, Option.some.injEq, dot,
          List.cons.injEq] at h
        exact ⟨bs, segs, by rw [h.1], by rw [hs, h.2]⟩

/-- How a path opens: at the root, at a dot, or with its body at once. -/
theorem opening_cases (p : Path) :
    (p.opening = some .root ∧ p.isAbsolute = true ∧ p.bytes = slash :: p.body) ∨
      (p.opening = some .current ∧ p.isAbsolute = false ∧ p.bytes = dot ++ p.body ∧
        ∃ segs, segments p.body = [] :: segs) ∨
      (p.opening = none ∧ p.isAbsolute = false ∧ p.bytes = p.body) := by
  unfold body
  cases habs : p.isAbsolute with
  | true =>
    have hopening : p.opening = some .root := by unfold opening; rw [if_pos habs]
    unfold isAbsolute at habs
    obtain ⟨bs, hbs⟩ := List.head?_eq_some_iff.mp (beq_iff_eq.mp habs)
    rw [hopening, hbs]
    exact Or.inl ⟨rfl, rfl, rfl⟩
  | false =>
    by_cases hdot : (segments p.bytes).head? = some dot
    · have hopening : p.opening = some .current := by
        unfold opening
        rw [habs, if_neg Bool.false_ne_true, if_pos hdot]
      obtain ⟨rest, segs, hbs, hsegs⟩ := exists_of_head?_segments_eq_dot hdot
      rw [hopening, hbs]
      exact Or.inr (Or.inl ⟨rfl, rfl, rfl, segs, hsegs⟩)
    · have hopening : p.opening = none := by
        unfold opening
        rw [habs, if_neg Bool.false_ne_true, if_neg hdot]
      rw [hopening]
      exact Or.inr (Or.inr ⟨rfl, rfl, rfl⟩)

theorem segments_dot_append {bs : Bytes} {segs : List Bytes} (h : segments bs = [] :: segs) :
    segments (dot ++ bs) = dot :: segs := by
  rw [segments_append_of_notMem (by decide), h]
  rfl

/-- A dot that opens a path stands for no step. -/
theorem steps_dot_append {bs : Bytes} {segs : List Bytes} (h : segments bs = [] :: segs) :
    steps (dot ++ bs) = steps bs := by
  rw [steps, steps, segments_dot_append h, h]
  rfl

/-- The opening's one byte stands for no step. -/
theorem steps_body (p : Path) : steps p.body = steps p.bytes := by
  rcases opening_cases p with ⟨-, -, h⟩ | ⟨-, -, h, segs, hsegs⟩ | ⟨-, -, h⟩
  · rw [h, steps_slash_cons]
  · rw [h, steps_dot_append hsegs]
  · rw [h]

/-- A path is its opening and the steps of all its bytes. -/
theorem components_eq (p : Path) : p.components = p.opening.toList ++ steps p.bytes := by
  rw [← steps_body]
  rfl

/-! ## Texts -/

theorem slash_notMem_utf8EncodeChar {c : Char} (h : c ≠ '/') :
    slash ∉ String.utf8EncodeChar c := by
  have hv : c.val.toNat ≠ 0x2F := fun e => h (Char.ext (UInt32.toNat_inj.mp e))
  have hb : ∀ n : Nat, n < 256 → n ≠ 0x2F → slash ≠ UInt8.ofNat n := by
    intro n hn hne e
    have := congrArg UInt8.toNat e
    rw [UInt8.toNat_ofNat_of_lt' hn] at this
    exact hne this.symm
  unfold String.utf8EncodeChar
  dsimp only
  split
  · rw [List.mem_singleton]
    exact hb _ (by omega) hv
  · split
    · simp only [List.mem_cons, List.not_mem_nil, or_false, not_or]
      exact ⟨hb _ (by omega) (by omega), hb _ (by omega) (by omega)⟩
    · split
      · simp only [List.mem_cons, List.not_mem_nil, or_false, not_or]
        exact ⟨hb _ (by omega) (by omega), hb _ (by omega) (by omega), hb _ (by omega) (by omega)⟩
      · simp only [List.mem_cons, List.not_mem_nil, or_false, not_or]
        exact ⟨hb _ (by omega) (by omega), hb _ (by omega) (by omega), hb _ (by omega) (by omega),
          hb _ (by omega) (by omega)⟩

theorem slash_notMem_encode {text : List Char} (h : '/' ∉ text) : slash ∉ Utf8.encode text := by
  intro hm
  obtain ⟨c, hc, hb⟩ := List.mem_flatMap.mp hm
  exact slash_notMem_utf8EncodeChar (fun e => h (e ▸ hc)) hb

theorem slash_mem_encode {text : List Char} (h : '/' ∈ text) : slash ∈ Utf8.encode text :=
  List.mem_flatMap.mpr ⟨'/', h, List.mem_singleton.mpr rfl⟩

/-- A text without slash that is more than dots is a name. -/
theorem plain_encode {text : List Char} (hne : text ≠ []) (hdot : text ≠ ['.'])
    (hdotDot : text ≠ ['.', '.']) (hslash : '/' ∉ text) : Plain (Utf8.encode text) := by
  exact ⟨fun e => hne ((Utf8.encode_inj (t := [])).mp e),
    fun e => hdot ((Utf8.encode_inj (t := ['.'])).mp e),
    fun e => hdotDot ((Utf8.encode_inj (t := ['.', '.'])).mp e), slash_notMem_encode hslash⟩

/-- An index file's name is one, whatever is written behind it without slash. -/
theorem plain_index {ext : String} (h : '/' ∉ ext.toList) :
    Plain (Utf8.encode ("index" ++ ext).toList) := by
  rw [String.toList_append]
  have hindex : '/' ∉ "index".toList := by decide
  refine plain_encode nofun nofun nofun fun hslash => ?_
  exact (List.mem_append.mp hslash).elim hindex h

/-- A suffix after a dot leaves a name a name. -/
theorem Plain.append_dot {c : Bytes} (h : Plain c) {ext : List Char} (hext : '/' ∉ ext) :
    Plain (c ++ Utf8.encode ('.' :: ext)) := by
  have hdot : Utf8.encode ('.' :: ext) = 0x2E :: Utf8.encode ext := rfl
  rw [hdot]
  refine ⟨by simp, fun e => ?_, fun e => ?_, fun hm => ?_⟩
  · obtain ⟨x, rest, rfl⟩ := List.exists_cons_of_ne_nil h.ne_nil
    simp [dot] at e
  · exact h.ne_dot (append_cons_eq_pair h.ne_nil e).1
  · rcases List.mem_append.mp hm with hm | hm
    · exact h.slash_notMem hm
    · rcases List.mem_cons.mp hm with e | hm
      · exact absurd e (by decide)
      · exact slash_notMem_encode hext hm

/-- The segments of a text are texts. -/
theorem valid_of_mem_segments {bs s : Bytes} (h : Utf8.Valid bs) (hs : s ∈ segments bs) :
    Utf8.Valid s := by
  obtain ⟨text, rfl⟩ := h
  induction text generalizing s with
  | nil => cases List.mem_singleton.mp hs; exact Utf8.valid_nil
  | cons c rest ih =>
    by_cases hc : c = '/'
    · subst hc
      rw [show Utf8.encode ('/' :: rest) = slash :: Utf8.encode rest from rfl,
        segments_slash_cons] at hs
      rcases List.mem_cons.mp hs with rfl | hs
      · exact Utf8.valid_nil
      · exact ih hs
    · rw [show Utf8.encode (c :: rest) = String.utf8EncodeChar c ++ Utf8.encode rest from rfl,
        segments_append_of_notMem (slash_notMem_utf8EncodeChar hc)] at hs
      cases ht : segments (Utf8.encode rest) with
      | nil => exact absurd ht (segments_ne_nil _)
      | cons t more =>
        rw [ht] at hs ih
        rcases List.mem_cons.mp hs with rfl | hs
        · exact Utf8.valid_append ⟨[c], by simp [Utf8.encode]⟩ (ih List.mem_cons_self)
        · exact ih (List.mem_cons_of_mem t hs)

theorem valid_slash_cons {bs : Bytes} (h : Utf8.Valid bs) : Utf8.Valid (slash :: bs) :=
  Utf8.valid_append ⟨['/'], rfl⟩ h

/-- Texts joined by slashes are a text. -/
theorem valid_unsegments {segs : List Bytes} (h : ∀ s ∈ segs, Utf8.Valid s) :
    Utf8.Valid (unsegments segs) := by
  induction segs with
  | nil => exact Utf8.valid_nil
  | cons s rest ih =>
    cases rest with
    | nil => exact h s List.mem_cons_self
    | cons t rest =>
      exact Utf8.valid_append (h s List.mem_cons_self)
        (valid_slash_cons (ih fun u hu => h u (List.mem_cons_of_mem s hu)))

end Path

end Relink
