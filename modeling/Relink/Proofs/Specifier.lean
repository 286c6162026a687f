import Relink.Specifier

/-!
# The extension of a specifier's last segment

Whether a relative specifier can be completed (`is_rewritable_specifier`) is decided by its last
segment. This file looks at a specifier as what stands before the last segment and the segment itself.

Results:
* `reversedLastSegment_append`: the last segment is found.
* `isCompletable_eq_false`: a name, a dot and something or nothing after it cannot be completed.
-/

namespace Relink.Specifier

/-- What may stand before a segment: nothing, or something that ends in a slash. -/
def EndsSegment (before : List Char) : Prop :=
  before = [] ∨ before.getLast? = some '/'

theorem endsSegment_append_slash (text : List Char) {before : List Char} (h : EndsSegment before) :
    EndsSegment (text ++ '/' :: before) := by
  right
  rcases h with rfl | h
  · exact List.getLast?_concat
  · obtain ⟨rest, rfl⟩ := List.getLast?_eq_some_iff.mp h
    exact (List.append_assoc text ('/' :: rest) ['/']) ▸ List.getLast?_concat

/-- The last segment is found, whatever stands before it. -/
theorem reversedLastSegment_append {before last : List Char} (hbefore : EndsSegment before)
    (hne : last ≠ []) (hlast : '/' ∉ last) :
    reversedLastSegment (before ++ last) = last.reverse := by
  have hhead : (last.reverse ++ before.reverse).dropWhile (· == '/') =
      last.reverse ++ before.reverse := by
    cases hr : last.reverse with
    | nil => exact absurd (List.reverse_eq_nil_iff.mp hr) hne
    | cons c rest =>
      have hc : c ≠ '/' := fun e => hlast (List.mem_reverse.mp (hr ▸ e ▸ List.mem_cons_self))
      rw [List.cons_append, List.dropWhile_cons_of_neg (by simpa using hc)]
  have hstop : before.reverse.takeWhile (· != '/') = [] := by
    rcases hbefore with rfl | h
    · rfl
    · obtain ⟨rest, rfl⟩ := List.getLast?_eq_some_iff.mp h
      simp
  unfold reversedLastSegment
  rw [List.reverse_append, hhead, List.takeWhile_append_of_pos, hstop, List.append_nil]
  intro c hc
  have : c ≠ '/' := fun e => hlast (e ▸ List.mem_reverse.mp hc)
  simpa using this

/-- A dot with something before it begins an extension. -/
theorem extensionOfReversed_ne_nil {stem : List Char} (h : stem ≠ []) (ext : List Char) :
    extensionOfReversed (stem ++ '.' :: ext).reverse ≠ [] := by
  have hdrop (e s : List Char) (hs : s ≠ []) :
      ∃ x y z, (e ++ '.' :: s).dropWhile (· != '.') = x :: y :: z := by
    obtain ⟨y, z, rfl⟩ := List.exists_cons_of_ne_nil hs
    induction e with
    | nil => exact ⟨'.', y, z, rfl⟩
    | cons c e ih =>
      by_cases hc : c = '.'
      · subst hc
        cases e with
        | nil => exact ⟨'.', '.', y :: z, rfl⟩
        | cons d e => exact ⟨'.', d, e ++ '.' :: y :: z, rfl⟩
      · rw [List.cons_append, List.dropWhile_cons_of_pos (by simpa using hc)]
        exact ih
  obtain ⟨x, y, z, hxyz⟩ := hdrop ext.reverse stem.reverse (by simpa using h)
  unfold extensionOfReversed
  rw [List.reverse_append, List.reverse_cons, List.append_assoc, List.singleton_append, hxyz]
  exact List.cons_ne_nil _ _

/-- **A specifier whose last segment has an extension cannot be completed.** -/
theorem isCompletable_eq_false {specifier : String} {before stem ext : List Char}
    (h : specifier.toList = before ++ (stem ++ '.' :: ext)) (hbefore : EndsSegment before)
    (hstem : stem ≠ []) (hslash : '/' ∉ stem ++ '.' :: ext)
    (hdots : stem ++ '.' :: ext ≠ ['.', '.']) : isCompletable specifier = false := by
  have hext : extensionChars specifier.toList ≠ [] := by
    unfold extensionChars
    rw [h, reversedLastSegment_append hbefore (by simp) hslash]
    dsimp only
    rw [if_neg fun e => hdots (List.reverse_eq_iff.mp e)]
    exact extensionOfReversed_ne_nil hstem ext
  unfold isCompletable
  rw [Bool.and_eq_false_iff]
  exact Or.inr (by simpa using hext)

/-- A relative specifier starts with a dot and is more than dots. -/
theorem exists_of_isRelative {specifier : String} (h : isRelative specifier = true) :
    (∃ rest, specifier.toList = '.' :: rest) ∧ specifier ≠ "." ∧ specifier ≠ ".." := by
  refine ⟨?_, ?_, ?_⟩
  · unfold isRelative startsWith at h
    rcases Bool.or_eq_true_iff.mp h with h | h
    · obtain ⟨rest, hrest⟩ := List.isPrefixOf_iff_prefix.mp h
      exact ⟨'/' :: rest, hrest.symm⟩
    · obtain ⟨rest, hrest⟩ := List.isPrefixOf_iff_prefix.mp h
      exact ⟨'.' :: '/' :: rest, hrest.symm⟩
  · rintro rfl; revert h; decide
  · rintro rfl; revert h; decide

end Relink.Specifier
