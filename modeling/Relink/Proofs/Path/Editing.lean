import Mathlib.Data.List.Basic
import Relink.Proofs.Path.FileName

/-!
# Editing a normal spelling

`normalize_lexical` finds the normal form of a path without a route, on a path that is written while the
components are read: a name is put behind what is there, and `..` cuts the last name off again, or is
put there too where there is no name to cut off. The path being written is at every moment the spelling
of the route walked so far (`edit_toPath`), so writing and cutting are the two ways in which a route
changes.

Results:
* `join_toPath`, `parent?_toPath`: a name behind a spelled route, and the last one cut off.
* `foldl_edit_components`: editing, from the empty path on, ends in the normal form.
* `normal_join_plain`: a name read from a normal form leads to a normal form.
-/

namespace Relink.Path

/-! ## One more segment -/

theorem unsegments_concat {segs : List Bytes} (hne : segs ≠ []) (s : Bytes) :
    unsegments (segs ++ [s]) = unsegments segs ++ slash :: s := by
  induction segs with
  | nil => exact absurd rfl hne
  | cons t rest ih =>
    cases rest with
    | nil => rfl
    | cons u rest =>
      calc t ++ slash :: unsegments (u :: rest ++ [s])
          = t ++ slash :: (unsegments (u :: rest) ++ slash :: s) := by
            rw [ih (List.cons_ne_nil u rest)]
        _ = (t ++ slash :: unsegments (u :: rest)) ++ slash :: s := by
            rw [List.append_assoc, List.cons_append]

/-- What is spelled last ends the spelling. -/
theorem getLast?_unsegments_concat (front : Bytes) (segs : List Bytes) {last : Bytes}
    (hne : last ≠ []) : (front ++ unsegments (segs ++ [last])).getLast? = last.getLast? := by
  rw [← List.nil_append last, ← unsegments_concat_append, ← List.append_assoc,
    List.getLast?_append_of_ne_nil _ hne, List.nil_append]

/-! ## Spelled routes -/

section Spelled

variable {r : Route} (h : r.Proper)

include h

/-- What is read from a spelled route is spelled as one segment more. -/
theorem join_toPath_segment {s : Bytes} (hs : slash ∉ s) :
    r.toPath.join ⟨s⟩ = ⟨(if r.rooted then [slash] else []) ++
      unsegments (List.replicate r.ups dotDot ++ r.names.reverse ++ [s])⟩ := by
  have hspelled := spelled_segments h
  unfold join Route.toPath
  generalize List.replicate r.ups dotDot ++ r.names.reverse = segs at hspelled ⊢
  rw [if_neg (by rw [isAbsolute_of_notMem hs]; exact Bool.false_ne_true)]
  rcases List.eq_nil_or_concat' segs with rfl | ⟨init, last, rfl⟩
  · cases r.rooted with
    | false => exact if_pos (Or.inl rfl)
    | true => exact if_pos (Or.inr rfl)
  · obtain ⟨hlast, -, hslash⟩ := hspelled last (List.mem_append_right init List.mem_cons_self)
    have hend := getLast?_unsegments_concat (if r.rooted then [slash] else []) init hlast
    rw [if_neg, unsegments_concat (List.concat_ne_nil last init), List.append_assoc]
    rintro (hnil | hends)
    · -- The empty path has no last byte, and the last segment has one.
      dsimp only at hnil
      rw [hnil] at hend
      exact hlast (List.getLast?_eq_none_iff.mp hend.symm)
    · exact hslash (List.mem_of_getLast? (hend.symm.trans hends))

/-- A name behind a spelled route. -/
theorem join_toPath {n : Bytes} (hn : Plain n) : r.toPath.join ⟨n⟩ = (r.step (.name n)).toPath := by
  rw [join_toPath_segment h hn.slash_notMem, List.append_assoc, ← List.reverse_cons]
  rfl

/-- A `..` behind a spelled route that has no name to cut off. -/
theorem join_toPath_dotDot (hnames : r.names = []) (hr : r.rooted = false) :
    r.toPath.join ⟨dotDot⟩ = (r.step .parent).toPath := by
  rw [join_toPath_segment h (by decide)]
  simp [Route.step, Route.toPath, hnames, hr, List.replicate_succ']

theorem body_toPath :
    r.toPath.body = unsegments (List.replicate r.ups dotDot ++ r.names.reverse) := by
  unfold body
  rw [opening_toPath h]
  unfold Route.toPath
  cases r.rooted <;> rfl

/-- Each spelled segment stands for a step. -/
theorem reversedSteps_spelled {segs : List Bytes}
    (hsegs : segs <+: List.replicate r.ups dotDot ++ r.names.reverse) :
    reversedSteps segs = segs.reverse := by
  unfold reversedSteps
  cases hr : segs.reverse with
  | nil => rfl
  | cons s rest =>
    have hs : s ∈ segs := by
      rw [← List.mem_reverse, hr]
      exact List.mem_cons_self
    have hstep : (Component.ofSegment? s).isNone = false := by
      rcases List.mem_append.mp (hsegs.subset hs) with hs | hs
      · rw [List.eq_of_mem_replicate hs]; rfl
      · rw [(h.plain s (List.mem_reverse.mp hs)).ofSegment?]; rfl
    rw [List.dropWhile_cons_of_neg (by rw [hstep]; exact Bool.false_ne_true)]

/-- The parent of a spelled route is spelled as the route without its last name. -/
theorem parent?_toPath {n : Bytes} {rest : List Bytes} (hnames : r.names = n :: rest) :
    r.toPath.parent? = some (r.step .parent).toPath := by
  have hsegs : List.replicate r.ups dotDot ++ r.names.reverse =
      List.replicate r.ups dotDot ++ rest.reverse ++ [n] := by
    rw [hnames, List.reverse_cons, List.append_assoc]
  have hcut : reversedSteps (segments r.toPath.body) =
      n :: (List.replicate r.ups dotDot ++ rest.reverse).reverse := by
    rw [body_toPath h, segments_unsegments (by simp [hnames]) fun s hs => (spelled_segments h s hs).2.2,
      reversedSteps_spelled h List.prefix_rfl, hsegs, List.reverse_concat]
  have hbefore := reversedSteps_spelled h (hsegs ▸ List.prefix_append _ [n])
  unfold parent? withBody
  rw [hcut, opening_toPath h]
  dsimp only
  rw [List.reverse_reverse, hbefore, List.reverse_reverse]
  unfold Route.step Route.toPath
  rw [hnames]
  cases r.rooted <;> rfl

/-- The last component of a spelled route is a name if the route has any. -/
theorem isSome_fileName?_toPath : r.toPath.fileName?.isSome = !r.names.isEmpty := by
  unfold fileName?
  rw [components_toPath h]
  unfold Route.components
  cases hnames : r.names with
  | nil =>
    rcases Nat.eq_zero_or_pos r.ups with hups | hups
    · rw [hups]; cases r.rooted <;> rfl
    · obtain ⟨ups, hups⟩ := Nat.exists_eq_add_of_lt hups
      rw [hups, Nat.zero_add, List.replicate_succ']
      simp
  | cons n rest => simp

end Spelled

/-! ## Editing -/

/-- The path written anew for one component more: a name is put behind it and `..` cuts the last name
off. Where there is none to cut off, `..` is put there too, unless that would be above the root. -/
def edit (p : Path) : Component → Path
  | .root => p.join ⟨[slash]⟩
  | .current => p
  | .parent =>
    if p.fileName?.isSome then p.parent?.getD p
    else if p.isAbsolute then p
    else p.join ⟨dotDot⟩
  | .name n => p.join ⟨n⟩

/-- **What is written is the spelling of the route walked**, one component further. -/
theorem edit_toPath {r : Route} (h : r.Proper) {c : Component} (hc : c.Moves) :
    r.toPath.edit c = (r.step c).toPath := by
  rcases hc with rfl | ⟨n, rfl, hn⟩
  · unfold edit
    dsimp only
    rw [isSome_fileName?_toPath h, isAbsolute_toPath h]
    cases hnames : r.names with
    | cons n rest => rw [if_pos (by rfl), parent?_toPath h hnames, Option.getD_some]
    | nil =>
      rw [if_neg (by exact Bool.false_ne_true)]
      cases hr : r.rooted with
      | true => rw [if_pos rfl, Route.step, hnames]; simp [hr]
      | false => rw [if_neg Bool.false_ne_true, join_toPath_dotDot h hnames hr]
  · exact join_toPath h hn

theorem foldl_edit_toPath {r : Route} (h : r.Proper) {cs : List Component} (hcs : ∀ c ∈ cs, c.Moves) :
    cs.foldl edit r.toPath = (r.walk cs).toPath := by
  induction cs generalizing r with
  | nil => rfl
  | cons c cs ih =>
    have hc : ∀ d ∈ [c], d.Moves := fun d hd =>
      List.mem_singleton.mp hd ▸ hcs c List.mem_cons_self
    have hstep : (r.step c).Proper := h.walk hc
    rw [List.foldl_cons, edit_toPath h (hcs c List.mem_cons_self),
      ih hstep fun d hd => hcs d (List.mem_cons_of_mem c hd), Route.walk_cons]

/-- **Editing ends in the normal form**, if it begins with the empty path. -/
theorem foldl_edit_components (p : Path) : p.components.foldl edit ⟨[]⟩ = p.normal := by
  have hopening : p.opening.toList.foldl edit ⟨[]⟩ = (Route.mk p.isAbsolute 0 []).toPath := by
    rcases opening_cases p with ⟨ho, habs, -⟩ | ⟨ho, habs, -⟩ | ⟨ho, habs, -⟩ <;> rw [ho, habs] <;> rfl
  have hproper : (Route.mk p.isAbsolute 0 []).Proper := ⟨nofun, fun _ => rfl⟩
  rw [components_eq, List.foldl_append, hopening,
    foldl_edit_toPath hproper fun c hc => moves_of_mem_steps hc, normal, route_eq]

/-- **A name read from a normal form leads to a normal form.** -/
theorem normal_join_plain (p : Path) {n : Bytes} (hn : Plain n) :
    p.normal.join ⟨n⟩ = (p.join ⟨n⟩).normal := by
  unfold normal
  rw [join_toPath (proper_route p) hn, route_join p (isAbsolute_plain hn), steps_plain hn]
  rfl

end Relink.Path
