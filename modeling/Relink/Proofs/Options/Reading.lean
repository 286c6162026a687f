import Relink.Options.Reader
import Relink.Proofs.Extension.Insertion
import Relink.Proofs.Json.Values

/-!
# What is read from written options

Options are read rule by rule (`from_json`), and each rule enters the table as it is read. So a text
that lists rules and the list itself come to the same: the same table, or the same fault of the same
rule. Of other texts only few are accepted, and the rules in them can be told from their tokens.

Results:
* `rulesOf_ruleTokens`, `mappingOf_ruleTokens`: the tokens of rules are read as the rules are appended.
* `exists_of_rulesOf`, `exists_of_mappingOf`: whatever is read as a table lists its rules.
* `ofText_text_eq_ofPairs`: texts and lists of rules agree.
* `ofText_eq_ok_iff`: the texts of options, by their tokens.
-/

namespace Relink.Options

open Json (Token)
open Extension (Table)

/-- The tokens of rules, with commas between them. -/
def ruleTokens (rules : List (String × String)) : List Token :=
  Json.memberTokens (rules.map fun rule => (rule.1, .string rule.2))

theorem ruleTokens_cons_cons (rule next : String × String) (rules : List (String × String)) :
    ruleTokens (rule :: next :: rules) =
      .string rule.1 :: .colon :: .string rule.2 :: .comma :: ruleTokens (next :: rules) := rfl

/-! ## Tokens of rules -/

/-- What comes of appending rules, as what comes of reading them. -/
def readAs (rest : List Token) (appended : Except Extension.Fault Table) :
    Except Fault (Table × List Token) :=
  match appended with
  | .ok t => .ok (t, rest)
  | .error f => .error (.misfit (.rule f))

theorem addRule_eq (t : Table) (source output : String) :
    addRule t source output =
      match t.insert source output with
      | .ok t => .ok t
      | .error f => .error (.misfit (.rule f)) := by
  unfold addRule
  cases t.insert source output <;> rfl

/-- **The tokens of rules are read as the rules are appended**, one after another. -/
theorem rulesOf_ruleTokens (t : Table) (rule : String × String) (rules : List (String × String))
    (rest : List Token) :
    rulesOf t (ruleTokens (rule :: rules) ++ .closeBrace :: rest) =
      readAs rest (t.appendAll (rule :: rules)) := by
  induction rules generalizing t rule with
  | nil =>
    rw [Table.appendAll_cons]
    show rulesOf t (.string rule.1 :: .colon :: .string rule.2 :: .closeBrace :: rest) = _
    unfold rulesOf
    rw [addRule_eq]
    cases t.insert rule.1 rule.2 <;> rfl
  | cons next rules ih =>
    rw [Table.appendAll_cons, ruleTokens_cons_cons]
    show rulesOf t (.string rule.1 :: .colon :: .string rule.2 :: .comma ::
      (ruleTokens (next :: rules) ++ .closeBrace :: rest)) = _
    unfold rulesOf
    rw [addRule_eq]
    cases t.insert rule.1 rule.2 with
    | ok u => exact ih u next
    | error f => rfl

theorem mappingOf_ruleTokens (rules : List (String × String)) (rest : List Token) :
    mappingOf (.openBrace :: (ruleTokens rules ++ .closeBrace :: rest)) =
      readAs rest (Table.ofPairs rules) := by
  cases rules with
  | nil => rfl
  | cons rule rules =>
    have hread := rulesOf_ruleTokens .empty rule rules rest
    cases rules <;> exact hread

/-- A rule that was read has been appended. -/
theorem insert_of_addRule {t u : Table} {source output : String}
    (h : addRule t source output = .ok u) : t.insert source output = .ok u := by
  rw [addRule_eq] at h
  split at h
  · next happend => cases h; exact happend
  · cases h

/-- Whatever is read as rules lists them. -/
theorem exists_of_rulesOf {t u : Table} {ts rest : List Token} (h : rulesOf t ts = .ok (u, rest)) :
    ∃ rule rules, ts = ruleTokens (rule :: rules) ++ .closeBrace :: rest ∧
      t.appendAll (rule :: rules) = .ok u := by
  fun_induction rulesOf t ts with
  | case2 t source output v rest' hadd =>
    cases h
    refine ⟨(source, output), [], rfl, ?_⟩
    rw [Table.appendAll_cons, insert_of_addRule hadd]
    rfl
  | case3 t source output v rest' hadd ih =>
    obtain ⟨next, rules, rfl, happend⟩ := ih h
    refine ⟨(source, output), next :: rules, rfl, ?_⟩
    rw [Table.appendAll_cons, insert_of_addRule hadd]
    exact happend
  | _ => cases h

theorem exists_of_mappingOf {t : Table} {ts rest : List Token} (h : mappingOf ts = .ok (t, rest)) :
    ∃ rules, ts = .openBrace :: (ruleTokens rules ++ .closeBrace :: rest) ∧
      Table.ofPairs rules = .ok t := by
  unfold mappingOf at h
  split at h
  · cases h
    exact ⟨[], rfl, rfl⟩
  · obtain ⟨rule, rules, rfl, happend⟩ := exists_of_rulesOf h
    exact ⟨rule :: rules, rfl, happend⟩
  · cases h

/-! ## Texts of options -/

/-- The tokens of a text of options: an object or an array that is empty or holds the mapping. -/
inductive Spells : List Token → Options → Prop
  | emptyObject : Spells [.openBrace, .closeBrace] {}
  | emptyArray : Spells [.openBracket, .closeBracket] {}
  | object {rules : List (String × String)} {t : Table} (h : Table.ofPairs rules = .ok t) :
      Spells (.openBrace :: .string fieldName :: .colon :: .openBrace ::
        (ruleTokens rules ++ [.closeBrace, .closeBrace])) ⟨t⟩
  | array {rules : List (String × String)} {t : Table} (h : Table.ofPairs rules = .ok t) :
      Spells (.openBracket :: .openBrace :: (ruleTokens rules ++ [.closeBrace, .closeBracket])) ⟨t⟩

theorem spells_of_optionsOf {ts : List Token} {o : Options} (h : optionsOf ts = .ok (o, [])) :
    Spells ts o := by
  unfold optionsOf at h
  split at h
  · next rest =>
    unfold fieldsOf at h
    split at h
    · cases h; exact .emptyObject
    · next name rest =>
      split at h
      · next hname =>
        subst hname
        split at h
        · split at h
          · next t rest' hmapping =>
            cases h
            obtain ⟨rules, rfl, hpairs⟩ := exists_of_mappingOf hmapping
            exact .object hpairs
          · cases h
          · cases h
        · cases h
      · cases h
    · cases h
  · next rest =>
    unfold elementsOf at h
    split at h
    · cases h; exact .emptyArray
    · split at h
      · next t rest' hmapping =>
        cases h
        obtain ⟨rules, rfl, hpairs⟩ := exists_of_mappingOf hmapping
        exact .array hpairs
      · cases h
      · cases h
  · cases h

/-- An object of options holds the mapping and nothing else. -/
theorem optionsOf_object (ts : List Token) :
    optionsOf (.openBrace :: .string fieldName :: .colon :: ts) =
      match mappingOf ts with
      | .ok (t, .closeBrace :: rest) => .ok (⟨t⟩, rest)
      | .ok (_, rest) => .error (wrongField rest)
      | .error f => .error f := by
  unfold optionsOf fieldsOf
  exact if_pos rfl

theorem optionsOf_array (ts : List Token) :
    optionsOf (.openBracket :: .openBrace :: ts) =
      match mappingOf (.openBrace :: ts) with
      | .ok (t, .closeBracket :: rest) => .ok (⟨t⟩, rest)
      | .ok (_, rest) => .error (wrongMark rest)
      | .error f => .error f := rfl

theorem optionsOf_of_spells {ts : List Token} {o : Options} (h : Spells ts o) :
    optionsOf ts = .ok (o, []) := by
  cases h with
  | emptyObject => rfl
  | emptyArray => rfl
  | object hpairs =>
    rw [optionsOf_object, mappingOf_ruleTokens, hpairs]
    rfl
  | array hpairs =>
    rw [optionsOf_array, mappingOf_ruleTokens, hpairs]
    rfl

/-- **Options are read from the texts that spell them**, and from no others. -/
theorem ofText_eq_ok_iff {s : String} {o : Options} :
    ofText s = .ok o ↔ Spells (Json.tokens s.toList) o := by
  unfold ofText
  constructor
  · intro h
    split at h
    · next hread => cases h; exact spells_of_optionsOf hread
    · cases h
    · cases h
  · intro h
    rw [optionsOf_of_spells h]

/-- The first rule that cannot be appended is the fault of the text. -/
theorem optionsOf_of_ofPairs_eq_error {rules : List (String × String)} {f : Extension.Fault}
    (h : Table.ofPairs rules = .error f) (rest : List Token) :
    optionsOf (.openBrace :: .string fieldName :: .colon :: .openBrace ::
      (ruleTokens rules ++ .closeBrace :: rest)) = .error (.misfit (.rule f)) := by
  rw [optionsOf_object, mappingOf_ruleTokens, h]
  rfl

/-! ## Written options -/

theorem toTokens_object (rules : List (String × String)) :
    (Json.object [(fieldName, rulesJson rules)]).toTokens =
      .openBrace :: .string fieldName :: .colon :: .openBrace ::
        (ruleTokens rules ++ [.closeBrace, .closeBrace]) := by
  simp [Json.toTokens, Json.memberTokens, rulesJson, ruleTokens]

theorem tokens_text (rules : List (String × String)) :
    Json.tokens (Json.object [(fieldName, rulesJson rules)]).text.toList =
      .openBrace :: .string fieldName :: .colon :: .openBrace ::
        (ruleTokens rules ++ [.closeBrace, .closeBrace]) := by
  have hclosed : (Json.object [(fieldName, rulesJson rules)]).Closed := by
    rw [Json.closed_object, List.forall_mem_singleton, rulesJson, Json.closed_object]
    exact List.forall_mem_map.mpr fun rule _ => Json.closed_string rule.2
  rw [Json.tokens_text hclosed, toTokens_object]

/-- Rules that can be appended one after another are read again. -/
theorem ofText_text_of_ok {rules : List (String × String)} {t : Table}
    (h : Table.ofPairs rules = .ok t) :
    ofText (Json.object [(fieldName, rulesJson rules)]).text = .ok ⟨t⟩ := by
  rw [ofText_eq_ok_iff, tokens_text]
  exact .object h

/-- **Texts and lists of rules agree.** For any list of rules, of whatever characters and however often
a source is in it: the text of an object whose members are these rules, in their order, is read as
options exactly when the list makes a table, which then holds the rules in their order. Where it makes
none, the text does not fit, and the message of that names the fault of the list. And any options are
read again from their own text. -/
theorem ofText_text_eq_ofPairs (rules : List (String × String)) (options : Options) :
    let members := rules.map fun rule => (rule.1, Json.string rule.2)
    let text := (Json.object [("extensionMapping", .object members)]).text
    (match Table.ofPairs rules with
      | .ok t => ofText text = .ok ⟨t⟩ ∧ t.rules = rules
      | .error f => ∃ misfit, ofText text = .error (.misfit misfit) ∧
          misfit.message = "invalid options: " ++ f.message) ∧
      ofText options.text = .ok options := by
  intro members text
  refine ⟨?_, ofText_text_of_ok (Table.ofPairs_rules options.table)⟩
  split
  · next t hpairs =>
    exact ⟨ofText_text_of_ok hpairs, (Table.appendAll_eq_ok_iff.mp hpairs).2⟩
  · next f hpairs =>
    refine ⟨.rule f, ?_, rfl⟩
    show ofText (Json.object [(fieldName, rulesJson rules)]).text = _
    unfold ofText
    rw [tokens_text, optionsOf_of_ofPairs_eq_error hpairs]

end Relink.Options
