import Relink.Proofs.Extension.Output
import Relink.Tree.Walk

/-!
# Filling a table

A rule is appended to a table or refused (`insert` of `ExtensionMap`), and what decides is the list of
all that speaks against it (`faults`): the first of these is reported. What a table holds after rules
were tried one after another follows from that, whether a refusal ends the matter (`appendAll`) or not
(`attemptAll`).

Results:
* `insert_eq_ok_iff`, `insert_eq_error_iff`: one rule.
* `appendAll_eq_ok_iff`, `appendAll_eq_error_iff`: rules that all have to be appended.
* `ofPairs_rules`: a table is the one of its own rules.
* `rules_attemptAll`: rules that may be refused.
* `output?_eq_some_iff`: what a table answers.
* `outputPath_of_append`: a rule that is appended does not matter where another fits.
-/

namespace Relink.Extension

/-- What speaks against appending a rule to these rules, in the order in which it is looked at. -/
def faults (rules : List (String × String)) (rule : String × String) : List Fault :=
  (if rule.1 = "" then [.emptySource] else []) ++
    (if Dotted rule.1 then [] else [.undotted rule.1]) ++
    (if Dotted rule.2 then [] else [.undotted rule.2]) ++
    if rule.1 ∈ rules.map Prod.fst then [.duplicate rule.1] else []

theorem faults_eq_nil_iff {rules : List (String × String)} {rule : String × String} :
    faults rules rule = [] ↔
      rule.1 ≠ "" ∧ Dotted rule.1 ∧ Dotted rule.2 ∧ rule.1 ∉ rules.map Prod.fst := by
  unfold faults
  simp only [List.append_eq_nil_iff, ite_eq_right_iff, ite_eq_left_iff, List.cons_ne_nil,
    imp_false, Decidable.not_not, and_assoc, ne_eq]

/-- Nothing speaks against any of the rules when those before it have been appended. -/
def Appendable (rules more : List (String × String)) : Prop :=
  ∀ before rule after, more = before ++ rule :: after → faults (rules ++ before) rule = []

theorem appendable_nil (rules : List (String × String)) : Appendable rules [] := by
  intro before rule after h
  cases before <;> cases h

theorem appendable_cons {rules more : List (String × String)} {rule : String × String} :
    Appendable rules (rule :: more) ↔ faults rules rule = [] ∧ Appendable (rules ++ [rule]) more := by
  constructor
  · intro h
    refine ⟨?_, fun before r after hmore => ?_⟩
    · have hfirst := h [] rule more rfl
      rwa [List.append_nil] at hfirst
    · have hnext := h (rule :: before) r after (congrArg (rule :: ·) hmore)
      rwa [List.append_cons] at hnext
  · rintro ⟨hfirst, hmore⟩ before r after h
    cases before with
    | nil => cases h; rwa [List.append_nil]
    | cons b before =>
      cases h
      rw [List.append_cons]
      exact hmore before r after rfl

namespace Table

/-! ## One rule -/

variable {t u : Table} {rule : String × String} {f : Fault}

/-- A rule is refused for the first thing that speaks against it, and else it stands last. -/
theorem map_rules_insert (t : Table) (rule : String × String) :
    (t.insert rule.1 rule.2).map Table.rules =
      match (faults t.rules rule).head? with
      | some f => .error f
      | none => .ok (t.rules ++ [rule]) := by
  by_cases hempty : rule.1 = ""
  · simp [insert, faults, hempty, Except.map]
  by_cases hsource : Dotted rule.1
  · by_cases houtput : Dotted rule.2
    · by_cases hknown : rule.1 ∈ t.rules.map Prod.fst
      · simp [insert, faults, sources, hempty, hsource, houtput, hknown, Except.map]
      · simp [insert, faults, sources, hempty, hsource, houtput, hknown, Except.map]
    · simp [insert, faults, hempty, hsource, houtput, Except.map]
  · simp [insert, faults, hempty, hsource, Except.map]

theorem insert_eq_error_iff :
    t.insert rule.1 rule.2 = .error f ↔ (faults t.rules rule).head? = some f := by
  have h := map_rules_insert t rule
  cases ht : t.insert rule.1 rule.2 with
  | error g =>
    rw [ht, Except.map] at h
    split at h
    · next g' hg => rw [hg]; cases h; simp
    · cases h
  | ok u =>
    rw [ht, Except.map] at h
    split at h
    · cases h
    · next hnone => simp [hnone]

theorem insert_eq_ok_iff :
    t.insert rule.1 rule.2 = .ok u ↔ faults t.rules rule = [] ∧ u.rules = t.rules ++ [rule] := by
  have h := map_rules_insert t rule
  cases ht : t.insert rule.1 rule.2 with
  | error g =>
    rw [ht, Except.map] at h
    split at h
    · next g' hg =>
      have hne : faults t.rules rule ≠ [] := fun hnil => by rw [hnil] at hg; cases hg
      simp [hne]
    · cases h
  | ok v =>
    rw [ht, Except.map] at h
    split at h
    · cases h
    · next hnone =>
      have hv : v.rules = t.rules ++ [rule] := Except.ok.inj h
      rw [List.head?_eq_none_iff.mp hnone, ← hv, and_iff_right rfl, Except.ok.injEq]
      exact ⟨fun e => e ▸ rfl, fun e => (eq_of_rules_eq e).symm⟩

/-! ## Rules that all have to be appended -/

/-- Appends rules one after another, or says what speaks against the first that cannot be. -/
def appendAll (t : Table) (more : List (String × String)) : Except Fault Table :=
  more.foldlM (fun t rule => t.insert rule.1 rule.2) t

theorem appendAll_cons (t : Table) (rule : String × String) (more : List (String × String)) :
    t.appendAll (rule :: more) = (t.insert rule.1 rule.2).bind fun t => t.appendAll more := rfl

theorem appendAll_eq_ok_iff {more : List (String × String)} :
    t.appendAll more = .ok u ↔ Appendable t.rules more ∧ u.rules = t.rules ++ more := by
  induction more generalizing t with
  | nil =>
    rw [List.append_nil, and_iff_right (appendable_nil _)]
    constructor
    · intro h; cases h; rfl
    · intro h; exact congrArg Except.ok (eq_of_rules_eq h.symm)
  | cons rule more ih =>
    rw [appendAll_cons, appendable_cons]
    cases hinsert : t.insert rule.1 rule.2 with
    | error f =>
      have hne : faults t.rules rule ≠ [] := fun hnil => by
        rw [insert_eq_error_iff, hnil] at hinsert; cases hinsert
      simp [Except.bind, hne]
    | ok v =>
      obtain ⟨hnil, hv⟩ := insert_eq_ok_iff.mp hinsert
      rw [Except.bind, ih, hv, hnil, and_iff_right rfl, List.append_assoc, List.singleton_append]

theorem appendAll_eq_error_iff {more : List (String × String)} :
    t.appendAll more = .error f ↔ ∃ before rule after, more = before ++ rule :: after ∧
      Appendable t.rules before ∧ (faults (t.rules ++ before) rule).head? = some f := by
  induction more generalizing t with
  | nil =>
    constructor
    · intro h; cases h
    · rintro ⟨before, rule, after, h, -⟩; simp at h
  | cons rule more ih =>
    rw [appendAll_cons]
    cases hinsert : t.insert rule.1 rule.2 with
    | error g =>
      have hg := insert_eq_error_iff.mp hinsert
      constructor
      · intro h
        cases h
        exact ⟨[], rule, more, rfl, appendable_nil _, by rwa [List.append_nil]⟩
      · rintro ⟨before, r, after, hsplit, happend, hr⟩
        cases before with
        | nil =>
          cases hsplit
          rw [List.append_nil, hg] at hr
          cases hr
          rfl
        | cons b before =>
          cases hsplit
          rw [(appendable_cons.mp happend).1] at hg
          cases hg
    | ok v =>
      obtain ⟨hnil, hv⟩ := insert_eq_ok_iff.mp hinsert
      rw [Except.bind, ih, hv]
      constructor
      · rintro ⟨before, r, after, rfl, happend, hr⟩
        refine ⟨rule :: before, r, after, rfl, appendable_cons.mpr ⟨hnil, happend⟩, ?_⟩
        rwa [List.append_cons]
      · rintro ⟨before, r, after, hsplit, happend, hr⟩
        cases before with
        | nil =>
          cases hsplit
          rw [List.append_nil, hnil] at hr
          cases hr
        | cons b before =>
          cases hsplit
          rw [List.append_cons] at hr
          exact ⟨before, r, after, rfl, (appendable_cons.mp happend).2, hr⟩

/-- The rules of a table can be appended one after another. -/
theorem appendable_rules (t : Table) : Appendable [] t.rules := by
  intro before rule after h
  have hmem : rule ∈ t.rules := h ▸ List.mem_append_right before List.mem_cons_self
  obtain ⟨hsource, houtput⟩ := t.dotted rule hmem
  have hdistinct := t.distinct
  rw [h, List.map_append, List.map_cons] at hdistinct
  refine faults_eq_nil_iff.mpr ⟨?_, hsource, houtput, ?_⟩
  · intro hempty
    rw [Dotted, hempty] at hsource
    cases hsource
  · intro hknown
    exact (List.nodup_append.mp hdistinct).2.2 _ hknown _ List.mem_cons_self rfl

/-- **A table is the one of its own rules.** -/
theorem ofPairs_rules (t : Table) : ofPairs t.rules = .ok t :=
  appendAll_eq_ok_iff.mpr ⟨appendable_rules t, rfl⟩

/-! ## Rules that may be refused -/

/-- Tries to append a rule: why it was refused, if it was, and the table afterwards. -/
def attempt (rule : String × String) (t : Table) : Option Fault × Table :=
  match t.insert rule.1 rule.2 with
  | .ok u => (none, u)
  | .error f => (some f, t)

/-- Tries to append rules, one after another. -/
def attemptAll (t : Table) (rules : List (String × String)) : List (Option Fault) × Table :=
  carry attempt rules t

/-- The rules that were not refused. -/
def accepted (rules : List (String × String)) (outcomes : List (Option Fault)) :
    List (String × String) :=
  ((rules.zip outcomes).filter fun tried => tried.2.isNone).map Prod.fst

theorem accepted_cons (rule : String × String) (rules : List (String × String))
    (outcome : Option Fault) (outcomes : List (Option Fault)) :
    accepted (rule :: rules) (outcome :: outcomes) =
      (if outcome.isNone then [rule] else []) ++ accepted rules outcomes := by
  unfold accepted
  cases outcome <;> rfl

/-- A rule that nothing speaks against stands last afterwards. Any other is refused for the first thing
that does, and the table stays as it is. -/
theorem attempt_cases (t : Table) (rule : String × String) :
    (faults t.rules rule = [] ∧ (t.attempt rule).1 = none ∧
        (t.attempt rule).2.rules = t.rules ++ [rule]) ∨
      ∃ f, (faults t.rules rule).head? = some f ∧ t.attempt rule = (some f, t) := by
  unfold attempt
  cases hinsert : t.insert rule.1 rule.2 with
  | ok u =>
    obtain ⟨hnil, hrules⟩ := insert_eq_ok_iff.mp hinsert
    exact Or.inl ⟨hnil, rfl, hrules⟩
  | error f => exact Or.inr ⟨f, insert_eq_error_iff.mp hinsert, rfl⟩

/-- **Rules that are tried one after another** stand in the order in which they were accepted. -/
theorem rules_attemptAll (t : Table) (rules : List (String × String)) :
    (t.attemptAll rules).2.rules = t.rules ++ accepted rules (t.attemptAll rules).1 := by
  unfold attemptAll
  induction rules generalizing t with
  | nil => exact (List.append_nil _).symm
  | cons rule rest ih =>
    dsimp only [carry]
    rw [ih, accepted_cons, ← List.append_assoc]
    congr 1
    rcases attempt_cases t rule with ⟨-, hnone, hrules⟩ | ⟨f, -, hrefused⟩
    · rw [hnone, hrules]
      rfl
    · rw [hrefused]
      exact (List.append_nil _).symm

/-! ## What a table answers -/

/-- **A table answers with its rules.** -/
theorem output?_eq_some_iff {source output : String} :
    t.output? source = some output ↔ (source, output) ∈ t.rules := by
  unfold output?
  have hdistinct := t.distinct
  generalize t.rules = rules at hdistinct
  induction rules with
  | nil => simp
  | cons rule rest ih =>
    obtain ⟨hnew, hrest⟩ := List.nodup_cons.mp hdistinct
    by_cases h : rule.1 = source
    · have hnot : (source, output) ∉ rest := fun hmem =>
        hnew (h ▸ List.mem_map_of_mem hmem)
      rw [List.find?_cons_of_pos (by simp [h]), List.mem_cons]
      constructor
      · intro houtput
        exact Or.inl (Prod.ext h.symm (Option.some.inj houtput).symm)
      · rintro (hrule | hmem)
        · exact congrArg some (congrArg Prod.snd hrule).symm
        · exact absurd hmem hnot
    · have hne : (source, output) ≠ rule := fun e => h (congrArg Prod.fst e).symm
      rw [List.find?_cons_of_neg (by simp [h]), List.mem_cons, or_iff_right hne]
      exact ih hrest

/-- Where a rule fits, one that is appended does not matter. -/
theorem outputName?_of_append (h : u.rules = t.rules ++ [rule]) {name : List Char}
    (hfit : ∃ source ∈ t.sources, source.toList <:+ name) :
    u.outputName? name = t.outputName? name := by
  have hsome : t.outputName? name ≠ none := fun hnone =>
    let ⟨source, hmem, hends⟩ := hfit
    outputName?_eq_none_iff.mp hnone source hmem hends
  obtain ⟨out, hout⟩ := Option.ne_none_iff_exists'.mp hsome
  unfold outputName? at hout ⊢
  rw [h, List.findSome?_append, hout, Option.some_or]

/-- **A path that a rule fits keeps its output path** when another rule is appended. -/
theorem outputPath_of_append (h : u.rules = t.rules ++ [rule]) {file : Path} {name : List Char}
    (hname : file.fileName?.bind Utf8.decode? = some name)
    (hfit : ∃ source ∈ t.sources, source.toList <:+ name) :
    u.outputPath file = t.outputPath file := by
  unfold outputPath
  rw [hname, Option.bind_some, Option.bind_some, outputName?_of_append h hfit]

end Table

end Relink.Extension
