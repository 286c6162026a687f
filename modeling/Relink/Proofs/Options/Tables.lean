import Relink.Proofs.Options.Reading

/-!
# Tables however they are made

A table may be the empty one (`new`) or the usual one (`default`), be made of a list of rules
(`from_pairs`) or be read from a text (`from_json`), and rules may be tried on it afterwards. `Made`
says which rules the making of a table lists. In every case the table holds those rules and after them
the ones that were accepted, in order.

Results:
* `rules_ofText`: the rules of options that have been read are those that the text spells.
* `Made.rules_eq`: the rules of a table are those listed in its making.
* `made_then_tried`: what holds of every table after any attempts.
-/

namespace Relink.Options

open Json (Token)
open Extension (Appendable Dotted Fault Table faults)

/-- The rules among tokens: a string, a colon and a string each. -/
def rulesIn : List Token → List (String × String)
  | .string source :: .colon :: .string output :: rest => (source, output) :: rulesIn rest
  | _ :: rest => rulesIn rest
  | [] => []

/-- The rules that a text of options spells, in its order; the usual ones if it has no mapping. -/
def rulesOfText (s : String) : List (String × String) :=
  match Json.tokens s.toList with
  | [_, _] => Table.typeScript.rules
  | ts => rulesIn ts

theorem rulesIn_ruleTokens (rules : List (String × String)) (rest : List Token) :
    rulesIn (ruleTokens rules ++ .closeBrace :: rest) = rules ++ rulesIn rest := by
  induction rules with
  | nil => rfl
  | cons rule rules ih =>
    cases rules with
    | nil => rfl
    | cons next rules => exact congrArg (rule :: ·) ih

/-- **The rules of options that have been read** are those that the text spells. -/
theorem rules_ofText {s : String} {o : Options} (h : ofText s = .ok o) :
    o.table.rules = rulesOfText s := by
  have hspells := ofText_eq_ok_iff.mp h
  unfold rulesOfText
  generalize Json.tokens s.toList = ts at hspells
  cases hspells with
  | emptyObject => rfl
  | emptyArray => rfl
  | @object rules t hpairs =>
    have hrules : t.rules = rules := (Table.appendAll_eq_ok_iff.mp hpairs).2
    show t.rules = rulesIn (ruleTokens rules ++ [.closeBrace, .closeBrace])
    rw [rulesIn_ruleTokens, hrules]
    exact (List.append_nil rules).symm
  | @array rules t hpairs =>
    have hrules : t.rules = rules := (Table.appendAll_eq_ok_iff.mp hpairs).2
    have hnot : ∀ a b, .openBracket :: .openBrace ::
        (ruleTokens rules ++ [.closeBrace, .closeBracket]) ≠ [a, b] := by
      intro a b hab
      cases (List.append_eq_nil_iff.mp (List.cons.inj (List.cons.inj hab).2).2).2
    split
    · next a b hab => exact absurd hab (hnot a b)
    · show t.rules = rulesIn (ruleTokens rules ++ [.closeBrace, .closeBracket])
      rw [rulesIn_ruleTokens, hrules]
      exact (List.append_nil rules).symm

/-! ## Makings -/

/-- The ways to make a table, each with the rules that it lists. -/
inductive Made : List (String × String) → Table → Prop
  | empty : Made [] .empty
  | typeScript : Made [(".ts", ".js"), (".tsx", ".js")] .typeScript
  | pairs {rules : List (String × String)} {t : Table} (h : Table.ofPairs rules = .ok t) :
      Made rules t
  | text {s : String} {o : Options} (h : ofText s = .ok o) : Made (rulesOfText s) o.table

/-- The rules of a table are those listed in its making. -/
theorem Made.rules_eq {listed : List (String × String)} {t : Table} (h : Made listed t) :
    t.rules = listed := by
  cases h with
  | empty => rfl
  | typeScript => rfl
  | pairs hpairs => exact (Table.appendAll_eq_ok_iff.mp hpairs).2
  | text htext => exact rules_ofText htext

/-- **Every table, however it was made and whatever was tried on it.** It holds the rules that were
listed in its making and after them the accepted ones, in order; all are dotted, no source has two, and
the table answers with them. The next rule is accepted exactly if nothing speaks against it, and then
stands last; else the first thing against it is reported, and the table stays as it is. Either way a
file that some rule fits keeps its output path. Tables are made of pairs in the same manner: the first
pair that cannot follow those before it is the fault. -/
theorem made_then_tried {listed : List (String × String)} {t : Table} (h : Made listed t)
    (tries : List (String × String)) :
    let u := (t.attemptAll tries).2
    let rules := listed ++ Table.accepted tries (t.attemptAll tries).1
    u.rules = rules ∧
      (∀ rule ∈ rules, Dotted rule.1 ∧ Dotted rule.2) ∧
      (rules.map Prod.fst).Nodup ∧
      (∀ source output, u.output? source = some output ↔ (source, output) ∈ rules) ∧
      (∀ rule,
        ((u.attempt rule).1 = none ↔
          rule.1 ≠ "" ∧ Dotted rule.1 ∧ Dotted rule.2 ∧ rule.1 ∉ rules.map Prod.fst) ∧
        (u.attempt rule).1 = (faults rules rule).head? ∧
        ((u.attempt rule).1 = none → (u.attempt rule).2.rules = rules ++ [rule]) ∧
        ((u.attempt rule).1 ≠ none → (u.attempt rule).2 = u) ∧
        ∀ file name, file.fileName?.bind Utf8.decode? = some name →
          (∃ source ∈ rules.map Prod.fst, source.toList <:+ name) →
          (u.attempt rule).2.outputPath file = u.outputPath file) ∧
      ∀ pairs,
        (∀ made, Table.ofPairs pairs = .ok made ↔ Appendable [] pairs ∧ made.rules = pairs) ∧
        ∀ fault, Table.ofPairs pairs = .error fault ↔
          ∃ before rule after, pairs = before ++ rule :: after ∧ Appendable [] before ∧
            (faults before rule).head? = some fault := by
  intro u rules
  have hrules : u.rules = rules := by
    show (t.attemptAll tries).2.rules = _
    rw [Table.rules_attemptAll, h.rules_eq]
  clear_value u rules
  subst hrules
  refine ⟨rfl, u.dotted, u.distinct, fun _ _ => Table.output?_eq_some_iff, fun rule => ?_,
    fun pairs => ⟨fun made => Table.appendAll_eq_ok_iff, fun fault => Table.appendAll_eq_error_iff⟩⟩
  rw [← Extension.faults_eq_nil_iff]
  rcases Table.attempt_cases u rule with ⟨hnil, hnone, hlast⟩ | ⟨f, hfirst, hrefused⟩
  · rw [hnil, hnone]
    refine ⟨iff_of_true rfl rfl, rfl, fun _ => hlast, fun hne => absurd rfl hne, ?_⟩
    intro file name hname hfit
    exact Table.outputPath_of_append hlast hname hfit
  · have hne : faults u.rules rule ≠ [] := fun hnil => by rw [hnil] at hfirst; cases hfirst
    rw [hrefused, hfirst]
    exact ⟨iff_of_false nofun hne, rfl, nofun, fun _ => rfl, fun _ _ _ _ => rfl⟩

/-- Options are read, four rules are refused, each for its own reason, and the fifth is accepted. -/
theorem made_then_tried_of_text :
    let text := "\x7b\"extensionMapping\":\x7b\".mts\":\".mjs\",\".ts\":\".js\"\x7d\x7d"
    let start : Table := ⟨[(".mts", ".mjs"), (".ts", ".js")], by decide, by decide⟩
    let tries := [("", ".js"), ("tsx", ".js"), (".tsx", "js"), (".ts", ".cjs"), (".tsx", ".jsx")]
    ofText text = .ok ⟨start⟩ ∧
      (start.attemptAll tries).1 = [some .emptySource, some (.undotted "tsx"),
        some (.undotted "js"), some (.duplicate ".ts"), none] ∧
      (start.attemptAll tries).2.rules = [(".mts", ".mjs"), (".ts", ".js"), (".tsx", ".jsx")] := by
  intro text start tries
  have htokens : Json.tokens text.toList =
      .openBrace :: .string fieldName :: .colon :: .openBrace ::
        (ruleTokens start.rules ++ [.closeBrace, .closeBrace]) := by decide +kernel
  have hread : ofText text = .ok ⟨start⟩ := by
    rw [ofText_eq_ok_iff, htokens]
    exact .object rfl
  exact ⟨hread, by decide, (made_then_tried (.text hread) tries).1.trans (by decide +kernel)⟩

end Relink.Options
