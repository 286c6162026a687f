import Mathlib.Data.List.Basic
import Mathlib.Data.List.TakeWhile
import Relink.Specifier

/-!
# The extension by one scan

`extension` (`extname`) cuts the last segment out and looks for its last dot. The same is found by one
scan from the right that keeps four notes: where the last segment begins and ends, where its last dot
stands, and what was met before that dot. The scan never looks at a character twice, and cuts the text
only at the end.

A specifier is taken apart as its trailing slashes, its last segment and what stands before that, all of
them read from the right.

Results:
* `run_slashes`, `run_undotted`, `run_dotted`, `run_rest`: what the scan notes of each part.
* `run_segment`: what it has noted in the end.
* `extension_eq_scannedExtension`: the scan finds the extension, in every text.
-/

namespace Relink.Specifier

/-- What a scan from the right has noted. Positions are counted from the left. -/
structure Scan where
  /-- Where the last segment begins. -/
  start : Nat := 0
  /-- Where the last segment ends, if one was met. -/
  stop : Option Nat := none
  /-- Where the last dot of that segment stands, if one was met. -/
  dot : Option Nat := none
  /-- `0` if nothing was met before that dot, `1` if what was met last is a dot, else `-1`. -/
  before : Int := 0

namespace Scan

/-- What is noted of a character before the dot. -/
def noteOf (c : Char) : Int :=
  if c = '.' then 1 else -1

/-- The scan meets a character of the last segment at a position. -/
def meet (s : Scan) (position : Nat) (c : Char) : Scan :=
  let s := { s with stop := s.stop.or (some (position + 1)) }
  if s.dot.isSome then { s with before := noteOf c }
  else if c = '.' then { s with dot := some position }
  else s

/-- The scan goes on through the characters that are left, the last of them first. It stops at the
slash before the last segment; the slashes behind that segment are skipped. -/
def run (s : Scan) : List Char → Scan
  | [] => s
  | c :: rest =>
    if c = '/' then
      if s.stop.isSome then { s with start := rest.length + 1 } else s.run rest
    else (s.meet rest.length c).run rest

/-- The extension by what was noted of a text. There is none where the dot begins the segment, and
none where the segment is `..`. -/
def extensionOf (s : Scan) (text : List Char) : List Char :=
  match s.stop, s.dot with
  | some stop, some dot =>
    if s.before = 0 ∨ s.before = 1 ∧ dot + 1 = stop ∧ dot = s.start + 1 then []
    else (text.take stop).drop dot
  | _, _ => []

end Scan

/-- The extension that a scan from the right finds, or the empty text. -/
def scannedExtension (specifier : String) : String :=
  let text := specifier.toList
  String.ofList ((Scan.run {} text.reverse).extensionOf text)

namespace Scan

/-- Slashes behind the last segment leave no note. -/
theorem run_slashes (text : List Char) :
    run {} text = run {} (text.dropWhile (· == '/')) := by
  induction text with
  | nil => rfl
  | cons c rest ih =>
    by_cases hc : c = '/'
    · rw [List.dropWhile_cons_of_pos (by simpa using hc), ← ih, run, if_pos hc]
      rfl
    · rw [List.dropWhile_cons_of_neg (by simpa using hc)]

/-- The end of the segment may as well be noted before its first character is met. -/
theorem run_eq_of_stop {s : Scan} (h : s.stop = none) {c : Char} (hc : c ≠ '/') (rest : List Char) :
    s.run (c :: rest) = ({ s with stop := some (c :: rest).length } : Scan).run (c :: rest) := by
  simp only [run, if_neg hc, meet, h, Option.or, List.length_cons]

/-- Up to the last dot nothing is noted. -/
theorem run_undotted {s : Scan} {stop : Nat} (hstop : s.stop = some stop) (hdot : s.dot = none)
    {text : List Char} (h : ∀ c ∈ text, c ≠ '/' ∧ c ≠ '.') (rest : List Char) :
    s.run (text ++ rest) = s.run rest := by
  induction text with
  | nil => rfl
  | cons c text ih =>
    obtain ⟨⟨hslash, hc⟩, htext⟩ := List.forall_mem_cons.mp h
    have hmeet (i : Nat) : s.meet i c = s := by
      obtain ⟨_, _, _, _⟩ := s
      cases hstop
      cases hdot
      simp [meet, hc]
    rw [List.cons_append, run, if_neg hslash, hmeet, ih htext]

/-- Of the characters before the dot, the one met last counts. -/
theorem run_dotted {s : Scan} {stop dot : Nat} (hstop : s.stop = some stop) (hdot : s.dot = some dot)
    {text : List Char} (h : ∀ c ∈ text, c ≠ '/') (rest : List Char) :
    s.run (text ++ rest) =
      ({ s with before := (text.getLast?.map noteOf).getD s.before } : Scan).run rest := by
  induction text generalizing s with
  | nil => rfl
  | cons c text ih =>
    obtain ⟨hslash, htext⟩ := List.forall_mem_cons.mp h
    have hmeet (i : Nat) : s.meet i c = { s with before := noteOf c } := by
      obtain ⟨_, _, _, _⟩ := s
      cases hstop
      cases hdot
      rfl
    rw [List.cons_append, run, if_neg hslash, hmeet, ih (by exact hstop) (by exact hdot) htext]
    cases text with
    | nil => rfl
    | cons d text =>
      rw [List.getLast?_cons_cons, List.getLast?_eq_some_getLast (List.cons_ne_nil d text)]
      rfl

/-- Where the segment is over, its begin is noted. -/
theorem run_rest {s : Scan} {stop : Nat} (hstop : s.stop = some stop) (hstart : s.start = 0)
    {rest : List Char} (h : rest.head? = none ∨ rest.head? = some '/') :
    s.run rest = { s with start := rest.length } := by
  cases rest with
  | nil => simp [run, ← hstart]
  | cons c rest =>
    obtain rfl : c = '/' := by simpa using h
    rw [run, if_pos rfl, hstop, Option.isSome_some, if_pos rfl]
    rfl

section Segment

variable {ending stem rest : List Char}

/-- The end of a segment that is not empty is noted first. -/
theorem run_eq_of_ne_nil (h : ∀ c ∈ ending, c ≠ '/') (hne : ending ≠ []) (rest : List Char) :
    run {} (ending ++ rest) = run { stop := some (ending ++ rest).length } (ending ++ rest) := by
  cases ending with
  | nil => exact absurd rfl hne
  | cons c ending => exact run_eq_of_stop rfl (h c List.mem_cons_self) _

/-- No dot is noted of a segment that has none. -/
theorem dot_run_eq_none (h : ∀ c ∈ ending, c ≠ '/' ∧ c ≠ '.') (hne : ending ≠ [])
    (hrest : rest.head? = none ∨ rest.head? = some '/') : (run {} (ending ++ rest)).dot = none := by
  rw [run_eq_of_ne_nil (fun c hc => (h c hc).1) hne, run_undotted rfl rfl h, run_rest rfl rfl hrest]

/-- **What is noted of a segment with a dot**: its two ends, the dot, and the character that begins the
segment if that is not the dot. -/
theorem run_segment (hending : ∀ c ∈ ending, c ≠ '/' ∧ c ≠ '.') (hstem : ∀ c ∈ stem, c ≠ '/')
    (hrest : rest.head? = none ∨ rest.head? = some '/') :
    run {} (ending ++ '.' :: (stem ++ rest)) =
      { start := rest.length
        stop := some (ending ++ '.' :: (stem ++ rest)).length
        dot := some (stem ++ rest).length
        before := (stem.getLast?.map noteOf).getD 0 } := by
  have hslash : ∀ c ∈ ending ++ ['.'], c ≠ '/' :=
    List.forall_mem_append.mpr
      ⟨fun c hc => (hending c hc).1, List.forall_mem_singleton.mpr (by decide)⟩
  have hbegun := run_eq_of_ne_nil hslash (by simp) (stem ++ rest)
  rw [List.append_assoc, List.singleton_append] at hbegun
  rw [hbegun, run_undotted rfl rfl hending, run, if_neg (by decide)]
  dsimp only [meet, Option.or, Option.isSome_none]
  rw [if_neg Bool.false_ne_true, if_pos rfl, run_dotted rfl rfl hstem, run_rest rfl rfl hrest]

/-- The notes tell a dot that begins its segment, and the segment `..`. -/
theorem notes_iff :
    ((stem.getLast?.map noteOf).getD 0 = 0 ∨ (stem.getLast?.map noteOf).getD 0 = 1 ∧
        (stem ++ rest).length + 1 = (ending ++ '.' :: (stem ++ rest)).length ∧
        (stem ++ rest).length = rest.length + 1) ↔
      stem = [] ∨ ending ++ '.' :: stem = ['.', '.'] := by
  have hstop : (stem ++ rest).length + 1 = (ending ++ '.' :: (stem ++ rest)).length ↔ ending = [] := by
    rw [← List.length_eq_zero_iff]
    simp only [List.length_append, List.length_cons]
    omega
  have hstart : (stem ++ rest).length = rest.length + 1 ↔ stem.length = 1 := by
    rw [List.length_append]
    omega
  rw [hstop, hstart]
  rcases List.eq_nil_or_concat' stem with rfl | ⟨init, c, rfl⟩
  · simp
  · have hdot : noteOf c = 1 ↔ c = '.' := by
      unfold noteOf
      split <;> simp_all
    have hmet : noteOf c ≠ 0 := by
      unfold noteOf
      split <;> decide
    rw [List.getLast?_concat, Option.map_some, Option.getD_some, hdot]
    have hdots : ending ++ '.' :: (init ++ [c]) = ['.', '.'] ↔ c = '.' ∧ ending = [] ∧ init = [] := by
      constructor
      · intro h
        have hlength := congrArg List.length h
        simp only [List.length_append, List.length_cons, List.length_nil] at hlength
        obtain rfl : ending = [] := List.eq_nil_of_length_eq_zero (by omega)
        obtain rfl : init = [] := List.eq_nil_of_length_eq_zero (by omega)
        simpa using h
      · rintro ⟨rfl, rfl, rfl⟩
        rfl
    rw [hdots]
    simp [hmet]

/-- The text between the dot and the end of the segment. -/
theorem drop_take_reverse (slashes : List Char) :
    ((slashes ++ (ending ++ '.' :: (stem ++ rest))).reverse.take
        (ending ++ '.' :: (stem ++ rest)).length).drop (stem ++ rest).length =
      '.' :: ending.reverse := by
  rw [List.reverse_append, List.take_left' List.length_reverse, List.reverse_append,
    List.reverse_cons, List.append_assoc, List.drop_left' List.length_reverse]
  rfl

/-- **The extension of a segment with a dot** is what its notes give. -/
theorem extensionOf_run_segment (hending : ∀ c ∈ ending, c ≠ '/' ∧ c ≠ '.')
    (hstem : ∀ c ∈ stem, c ≠ '/') (hrest : rest.head? = none ∨ rest.head? = some '/')
    (slashes : List Char) :
    (run {} (ending ++ '.' :: (stem ++ rest))).extensionOf
        (slashes ++ (ending ++ '.' :: (stem ++ rest))).reverse =
      if stem = [] ∨ ending ++ '.' :: stem = ['.', '.'] then [] else '.' :: ending.reverse := by
  rw [run_segment hending hstem hrest]
  unfold extensionOf
  dsimp only
  rw [drop_take_reverse]
  simp only [notes_iff]

end Segment

end Scan

/-- The last dot of a segment parts it. -/
theorem extensionOfReversed_append {ending : List Char} (h : ∀ c ∈ ending, c ≠ '.')
    (stem : List Char) :
    extensionOfReversed (ending ++ '.' :: stem) =
      if stem = [] then [] else '.' :: ending.reverse := by
  have hpos : ∀ c ∈ ending, (c != '.') = true := fun c hc => by simpa using h c hc
  unfold extensionOfReversed
  rw [List.dropWhile_append_of_pos hpos, List.takeWhile_append_of_pos hpos,
    List.dropWhile_cons_of_neg (by decide), List.takeWhile_cons_of_neg (by decide), List.append_nil]
  cases stem <;> rfl

/-- Behind the characters that differ from `c` the text ends or `c` stands. -/
theorem head?_dropWhile_bne (c : Char) (text : List Char) :
    (text.dropWhile (· != c)).head? = none ∨ (text.dropWhile (· != c)).head? = some c := by
  cases h : (text.dropWhile (· != c)).head? with
  | none => exact Or.inl rfl
  | some d =>
    have hd := List.head?_dropWhile_not (· != c) text
    rw [h] at hd
    exact Or.inr (by simpa using hd)

theorem ne_of_mem_takeWhile_bne {c d : Char} {text : List Char}
    (h : d ∈ text.takeWhile (· != c)) : d ≠ c := by
  simpa using List.mem_takeWhile_imp h

/-- A text read from the right: slashes, then the last segment, then what stands before it. There is a
last segment if there is anything but slashes. -/
theorem exists_reversedLastSegment (text : List Char) :
    ∃ slashes rest, text.reverse = slashes ++ (reversedLastSegment text ++ rest) ∧
      Scan.run {} text.reverse = Scan.run {} (reversedLastSegment text ++ rest) ∧
      (rest.head? = none ∨ rest.head? = some '/') ∧ (reversedLastSegment text = [] → rest = []) := by
  refine ⟨text.reverse.takeWhile (· == '/'),
    (text.reverse.dropWhile (· == '/')).dropWhile (· != '/'), ?_, ?_, head?_dropWhile_bne _ _, ?_⟩
  · unfold reversedLastSegment
    rw [List.takeWhile_append_dropWhile, List.takeWhile_append_dropWhile]
  · unfold reversedLastSegment
    rw [List.takeWhile_append_dropWhile, ← Scan.run_slashes]
  · intro hnone
    unfold reversedLastSegment at hnone
    have hshown := List.takeWhile_append_dropWhile (p := (· != '/'))
      (l := text.reverse.dropWhile (· == '/'))
    rw [hnone, List.nil_append] at hshown
    have hhead := List.head?_dropWhile_not (· == '/') text.reverse
    rw [hshown]
    rcases head?_dropWhile_bne '/' (text.reverse.dropWhile (· == '/')) with h | h
    · rwa [hshown, List.head?_eq_none_iff] at h
    · rw [← hshown, h] at hhead
      simp at hhead

/-- A segment read from the right has no dot, or its last dot parts it. -/
theorem dot_cases (segment : List Char) :
    (∀ c ∈ segment, c ≠ '.') ∨
      ∃ ending stem, segment = ending ++ '.' :: stem ∧ ∀ c ∈ ending, c ≠ '.' := by
  have hparts := List.takeWhile_append_dropWhile (p := (· != '.')) (l := segment)
  have hending : ∀ c ∈ segment.takeWhile (· != '.'), c ≠ '.' := fun c hc => ne_of_mem_takeWhile_bne hc
  cases hstem : segment.dropWhile (· != '.') with
  | nil =>
    rw [hstem, List.append_nil] at hparts
    exact Or.inl (hparts ▸ hending)
  | cons c stem =>
    have hhead := head?_dropWhile_bne '.' segment
    rw [hstem] at hhead
    obtain rfl : c = '.' := by simpa using hhead
    exact Or.inr ⟨_, stem, (hstem ▸ hparts).symm, hending⟩

/-- **The scan finds the extension**, in every text. -/
theorem extension_eq_scannedExtension (specifier : String) :
    extension specifier = scannedExtension specifier := by
  refine congrArg String.ofList ?_
  generalize specifier.toList = text
  obtain ⟨slashes, rest, htext, hrun, hrest, hnone⟩ := exists_reversedLastSegment text
  have hslash : ∀ c ∈ reversedLastSegment text, c ≠ '/' := fun c hc => ne_of_mem_takeWhile_bne hc
  have hend : text = (slashes ++ (reversedLastSegment text ++ rest)).reverse := by
    rw [← htext, List.reverse_reverse]
  unfold extensionChars
  dsimp only
  generalize reversedLastSegment text = segment at *
  rw [hrun]
  rcases dot_cases segment with hdot | ⟨ending, stem, rfl, hending⟩
  · have hscanned : (Scan.run {} (segment ++ rest)).dot = none := by
      by_cases hne : segment = []
      · rw [hnone hne, hne]
        rfl
      · exact Scan.dot_run_eq_none (fun c hc => ⟨hslash c hc, hdot c hc⟩) hne hrest
    have hfound : extensionOfReversed segment = [] := by
      unfold extensionOfReversed
      rw [List.dropWhile_eq_nil_iff.mpr fun c hc => by simpa using hdot c hc]
    unfold Scan.extensionOf
    rw [hscanned, hfound, ite_self]
    split <;> simp_all
  · rw [List.forall_mem_append, List.forall_mem_cons] at hslash
    rw [List.append_assoc, List.cons_append] at hend ⊢
    rw [hend, Scan.extensionOf_run_segment (fun c hc => ⟨hslash.1 c hc, hending c hc⟩) hslash.2.2 hrest,
      extensionOfReversed_append hending]
    split <;> split <;> simp_all

end Relink.Specifier
