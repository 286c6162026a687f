/-!
# Extension tables

Model of `ExtensionMap` and of what `OptionsError` says about its rules.

A table says which extension a compiled file gets for which source extension. Its order matters:
the sources are tried in that order when a module is looked for, and the first rule that fits a
file name decides its output. Extensions start with a dot and no source is listed twice; the type
carries both facts.

* `Table.insert` (`insert`) appends a rule or says why it cannot.
* `Table.ofPairs` (`from_pairs`) inserts rules one after another and stops at the first that fails.
* `Table.output?` and `Table.sources` are `output_for` and `source_extensions`.
-/

namespace Relink.Extension

/-- An extension starts with a dot. -/
def Dotted (ext : String) : Prop :=
  ext.toList.head? = some '.'

instance (ext : String) : Decidable (Dotted ext) :=
  inferInstanceAs (Decidable (ext.toList.head? = some '.'))

/-- Rules `(source, output)` in order of preference. -/
structure Table where
  rules : List (String × String)
  dotted : ∀ rule ∈ rules, Dotted rule.1 ∧ Dotted rule.2
  distinct : (rules.map Prod.fst).Nodup

/-- Why a rule cannot be appended. -/
inductive Fault where
  | emptySource
  | undotted (ext : String)
  | duplicate (source : String)
deriving DecidableEq, Repr

/-- What the user is told. -/
def Fault.message : Fault → String
  | .emptySource => "source extension must not be empty"
  | .undotted ext => "extension `" ++ ext ++ "` must start with `.`"
  | .duplicate source => "source extension `" ++ source ++ "` is mapped more than once"

namespace Table

theorem eq_of_rules_eq {s t : Table} (h : s.rules = t.rules) : s = t := by
  cases s; cases t; cases h; rfl

instance : DecidableEq Table := fun s t =>
  if h : s.rules = t.rules then .isTrue (eq_of_rules_eq h)
  else .isFalse fun e => h (e ▸ rfl)

/-- The table without rules. -/
def empty : Table :=
  ⟨[], by simp, by simp⟩

/-- TypeScript sources become JavaScript. -/
def typeScript : Table :=
  ⟨[(".ts", ".js"), (".tsx", ".js")], by decide, by decide⟩

instance : Inhabited Table := ⟨typeScript⟩

/-- The output of the rule for exactly this source extension. -/
def output? (t : Table) (source : String) : Option String :=
  (t.rules.find? fun rule => rule.1 = source).map Prod.snd

/-- The source extensions, in order. -/
def sources (t : Table) : List String :=
  t.rules.map Prod.fst

/-- Appends a rule. Of several reasons against it the first of these counts: the source is empty,
the source has no dot, the output has no dot, the source has a rule already. -/
def insert (t : Table) (source output : String) : Except Fault Table :=
  if source = "" then .error .emptySource
  else if hs : ¬ Dotted source then .error (.undotted source)
  else if ho : ¬ Dotted output then .error (.undotted output)
  else if hd : source ∈ t.sources then .error (.duplicate source)
  else .ok {
    rules := t.rules ++ [(source, output)]
    dotted := by
      intro rule h
      rcases List.mem_append.mp h with h | h
      · exact t.dotted rule h
      · cases List.mem_singleton.mp h
        exact ⟨Decidable.not_not.mp hs, Decidable.not_not.mp ho⟩
    distinct := by
      rw [List.map_append, List.nodup_append]
      refine ⟨t.distinct, by simp, ?_⟩
      intro a ha b hb e
      subst e
      cases List.mem_singleton.mp hb
      exact hd ha }

/-- The table of the given rules, in order, or the fault of the first that cannot be appended. -/
def ofPairs (pairs : List (String × String)) : Except Fault Table :=
  pairs.foldlM (fun t rule => t.insert rule.1 rule.2) empty

end Table

end Relink.Extension
