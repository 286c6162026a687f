import Relink.Proofs.Path.Containing

/-!
# A written specifier names no package

A specifier that is written for a file (`relativize`) is the way to it, behind `./` where the way could
be read as a name. A way that starts with `../` needs nothing before it. So a specifier starts with `./`
or `../`, as a relative one has to (`is_relative_specifier`), with one exception: the way to the directory
above the importing one is `..`, and nothing is put before or behind it.

Results:
* `slashed_waySegments_eq_dots_iff`: the way is `..` alone exactly where it leads to the parent.
* `relativeSpecifier_cases`: any other specifier starts with `./` or `../`.
* `relativeSpecifier_opens`: both together, and that no specifier reads as a package.
* `relativeSpecifier_of_parent`: a specifier that starts with neither `./` nor `../`.
-/

namespace Relink

/-- A text without slashes is a single segment. -/
theorem eq_singleton_of_slashed {segs : List (List Char)} {text : List Char} (h : slashed segs = text)
    (hne : text ≠ []) (hslash : '/' ∉ text) : segs = [text] := by
  cases segs with
  | nil => exact absurd h.symm hne
  | cons s rest =>
    cases rest with
    | nil => rw [← h]; rfl
    | cons t rest =>
      have hmem : '/' ∈ slashed (s :: t :: rest) := List.mem_append_right s List.mem_cons_self
      exact absurd (h ▸ hmem) hslash

namespace Path

variable {dir file : Path}

/-- No plain name is shown as `..`, whether it is a text or not. -/
theorem Plain.lossy_ne_dots {n : Bytes} (h : Plain n) : Utf8.lossy n ≠ ['.', '.'] := by
  intro e
  have hvalid : Utf8.Valid n := Utf8.valid_of_lossy (by rw [e]; decide)
  refine h.ne_dotDot ?_
  rw [← Utf8.encode_lossy hvalid, e]
  rfl

/-- **The way is `..` alone** exactly where it leads to the parent of the directory. -/
theorem slashed_waySegments_eq_dots_iff (hd : dir.isAbsolute = true) (hf : file.isAbsolute = true) :
    slashed (waySegments dir file) = ['.', '.'] ↔ dir.normal.parent? = some file.normal := by
  rw [parent?_normal_eq_iff hd hf, waySegments_eq hd hf]
  obtain ⟨shared, hdir, hfile⟩ := exists_shared dir file
  constructor
  · intro h
    have hsegs := eq_singleton_of_slashed h (by simp) (by decide)
    rcases hup : up dir file with _ | ⟨n, rest⟩
    · -- Nothing is left by going up, so a name that is entered would be shown as `..`.
      rw [hup, List.length_nil, List.replicate_zero, List.nil_append] at hsegs
      obtain ⟨m, hm, hshown⟩ := List.mem_map.mp (hsegs ▸ List.mem_singleton_self ['.', '.'])
      exact absurd hshown (plain_of_mem_down hm).lossy_ne_dots
    · rw [hup, List.length_cons, List.replicate_succ, List.cons_append, List.cons.injEq,
        List.append_eq_nil_iff, List.replicate_eq_nil_iff, List.length_eq_zero_iff,
        List.map_eq_nil_iff] at hsegs
      obtain ⟨-, rfl, hdown⟩ := hsegs
      exact ⟨n, by rw [hdir, hfile, hup, hdown, List.append_nil]⟩
  · rintro ⟨n, h⟩
    have hdropped := dropShared_shared file.names [n] []
    rw [List.append_nil, ← h] at hdropped
    have hup : up dir file = [n] := congrArg Prod.fst hdropped
    have hdown : down dir file = [] := congrArg Prod.snd hdropped
    rw [hup, hdown]
    rfl

end Path

/-- A specifier of a file is the way to it where that is `..`, and else starts with `./` or `../`. -/
theorem relativeSpecifier_cases (dir : Path) {file : Path} (hf : file.isAbsolute = true) :
    dir.wayTo file = ".." ∧ relativeSpecifier dir file = ".." ∨
      dir.wayTo file ≠ ".." ∧ Specifier.isRelative (relativeSpecifier dir file) = true := by
  unfold relativeSpecifier Specifier.isRelative Specifier.startsWith
  rw [if_pos hf, Bool.or_eq_true_iff]
  dsimp only
  by_cases hway : dir.wayTo file = ".."
  · rw [if_pos (Or.inl hway)]
    exact Or.inl ⟨hway, hway⟩
  · refine Or.inr ⟨hway, ?_⟩
    split
    · next hkept => exact (hkept.resolve_left hway).symm
    · left
      rw [String.toList_append]
      exact List.isPrefixOf_iff_prefix.mpr (List.prefix_append _ _)

/-- **How a written specifier starts.** Let the directory and the file be absolute, in any spelling. The
specifier of the file starts with `./` or `../`, unless the file lies at the parent of the directory;
there it is `..`. So it names a place and no package. -/
theorem relativeSpecifier_opens {dir file : Path} (hd : dir.isAbsolute = true)
    (hf : file.isAbsolute = true) :
    (dir.normal.parent? ≠ some file.normal →
        Specifier.isRelative (relativeSpecifier dir file) = true) ∧
      (dir.normal.parent? = some file.normal → relativeSpecifier dir file = "..") ∧
      Specifier.isPath (relativeSpecifier dir file) = true := by
  have hparent : dir.wayTo file = ".." ↔ dir.normal.parent? = some file.normal := by
    rw [← Path.slashed_waySegments_eq_dots_iff hd hf, ← String.toList_inj]
    unfold Path.wayTo
    rw [String.toList_ofList]
    rfl
  rw [Ne, ← hparent]
  rcases relativeSpecifier_cases dir hf with ⟨hway, hdots⟩ | ⟨hway, hrelative⟩
  · refine ⟨fun h => absurd hway h, fun _ => hdots, ?_⟩
    rw [hdots]
    rfl
  · exact ⟨fun _ => hrelative, fun h => absurd h hway, Specifier.isPath_of_isRelative hrelative⟩

/-- A name that is no text and begins like `..`, the way to the directory itself, and the way to its
parent, each from a directory that is spelled with dots and slashes. -/
theorem relativeSpecifier_opens_of_spellings :
    let dir := Path.ofText "//p/x/../src/."
    let named : Path := ⟨Utf8.encode "/p/src/..".toList ++ [0xFF]⟩
    let here := Path.ofText "/p/./src//"
    let above := Path.ofText "/p/src/.."
    (dir.isAbsolute = true ∧ named.isAbsolute = true ∧ dir.normal.parent? ≠ some named.normal) ∧
      Specifier.isRelative (relativeSpecifier dir named) = true ∧
      (here.isAbsolute = true ∧ dir.normal.parent? ≠ some here.normal) ∧
      Specifier.isRelative (relativeSpecifier dir here) = true ∧
      (above.isAbsolute = true ∧ dir.normal.parent? = some above.normal) ∧
      relativeSpecifier dir above = ".." := by
  intro dir named here above
  have hdir : dir.isAbsolute = true := by decide
  have hnamed : named.isAbsolute = true ∧ dir.normal.parent? ≠ some named.normal := by decide +kernel
  have hhere : here.isAbsolute = true ∧ dir.normal.parent? ≠ some here.normal := by decide +kernel
  have habove : above.isAbsolute = true ∧ dir.normal.parent? = some above.normal := by decide +kernel
  exact ⟨⟨hdir, hnamed⟩, (relativeSpecifier_opens hdir hnamed.1).1 hnamed.2, hhere,
    (relativeSpecifier_opens hdir hhere.1).1 hhere.2, habove,
    (relativeSpecifier_opens hdir habove.1).2.1 habove.2⟩

/-- The specifier of the directory above starts with neither `./` nor `../`, so it is no relative one. -/
theorem relativeSpecifier_of_parent :
    let dir := Path.ofText "/p/src"
    let file := Path.ofText "/p"
    dir.isAbsolute = true ∧ file.isAbsolute = true ∧ relativeSpecifier dir file = ".." ∧
      Specifier.isRelative (relativeSpecifier dir file) = false := by
  decide +kernel

end Relink
