import Relink.Options.Basic
import Relink.Text.Quoted

/-!
# Reading options

Model of `from_json` with the visitor of `ExtensionMap` (`visit_map`) and the messages of the faults.

`Options.ofText` reads the options from left to right and reports the first fault that it meets: the
text may be no JSON up to there (`Fault.text`), or be JSON that does not fit (`Fault.misfit`). Rules
enter the table as they are read, so their order is that of the text, and a source that is listed
twice is found out. Instead of an object the options may be an array that holds the mapping alone.
-/

namespace Relink.Options

open Json (Token)

/-- What stands at a place where something else has to stand. -/
inductive Found where
  | null
  | bool (b : Bool)
  | number (n : Json.Number)
  | string (text : String)
  | array
  | object
deriving DecidableEq, Repr

/-- How a message names it. -/
def Found.description : Found → String
  | .null => "null"
  | .bool true => "boolean `true`"
  | .bool false => "boolean `false`"
  | .number (.binary minus x) =>
    "floating point `" ++ String.ofList (Json.Number.text (.binary minus x)) ++ "`"
  | .number n => "integer `" ++ String.ofList n.text ++ "`"
  | .string s => "string " ++ Text.quoted s
  | .array => "sequence"
  | .object => "map"

/-- What has to stand at a place. -/
inductive Place where
  | options
  | mapping
  | output
deriving DecidableEq, Repr

/-- How a message names it. -/
def Place.description : Place → String
  | .options => "struct RewriteOptions"
  | .mapping => "an object mapping source extensions to output extensions"
  | .output => "a string"

/-- Why a JSON text holds no options. -/
inductive Misfit where
  | wrongType (found : Found) (place : Place)
  | unknownField (name : String)
  | duplicateField
  | rule (fault : Extension.Fault)
deriving DecidableEq, Repr

/-- What the user is told. -/
def Misfit.message : Misfit → String
  | .wrongType found place =>
    "invalid options: invalid type: " ++ found.description ++ ", expected " ++ place.description
  | .unknownField name =>
    "invalid options: unknown field `" ++ name ++ "`, expected `" ++ fieldName ++ "`"
  | .duplicateField => "invalid options: duplicate field `" ++ fieldName ++ "`"
  | .rule fault => "invalid options: " ++ fault.message

/-- Why a text holds no options. -/
inductive Fault where
  | text (fault : Json.Fault)
  | misfit (misfit : Misfit)
deriving DecidableEq, Repr

/-- What begins with this token, if a value does. -/
def found? : Token → Option Found
  | .null => some .null
  | .bool b => some (.bool b)
  | .number n => some (.number n)
  | .string s => some (.string s)
  | .openBracket => some .array
  | .openBrace => some .object
  | _ => none

/-- The fault where a value of another type has to start. -/
def wrongStart (place : Place) : List Token → Fault
  | [] => .text .truncated
  | .broken _ f :: _ => .text f
  | t :: _ =>
    match found? t with
    | some found => .misfit (.wrongType found place)
    | none => .text .malformed

/-- The fault where a string has to stand as the key of a member. -/
def wrongKey : List Token → Fault
  | [] => .text .truncated
  | .broken true f :: _ => .text f
  | _ => .text .malformed

/-- The fault where a single token that is no value has to stand. -/
def wrongMark : List Token → Fault
  | [] => .text .truncated
  | _ => .text .malformed

/-- Appends a rule that has been read. -/
def addRule (t : Extension.Table) (source output : String) : Except Fault Extension.Table :=
  (t.insert source output).mapError fun f => .misfit (.rule f)

/-- The rules from the key of one on, up to the closing brace, appended to `t`; and the rest. -/
def rulesOf (t : Extension.Table) : List Token → Except Fault (Extension.Table × List Token)
  | .string source :: .colon :: .string output :: rest =>
    match addRule t source output, rest with
    | .error f, _ => .error f
    | .ok t, .closeBrace :: rest => .ok (t, rest)
    | .ok t, .comma :: rest => rulesOf t rest
    | .ok _, rest => .error (wrongMark rest)
  | .string _ :: .colon :: rest => .error (wrongStart .output rest)
  | .string _ :: rest => .error (wrongMark rest)
  | ts => .error (wrongKey ts)

/-- The mapping at the front, and the rest. -/
def mappingOf : List Token → Except Fault (Extension.Table × List Token)
  | .openBrace :: .closeBrace :: rest => .ok (.empty, rest)
  | .openBrace :: rest => rulesOf .empty rest
  | ts => .error (wrongStart .mapping ts)

/-- The fault where the object has to end because its only field has been read. -/
def wrongField : List Token → Fault
  | .comma :: .string name :: _ =>
    if name = fieldName then .misfit .duplicateField else .misfit (.unknownField name)
  | .comma :: rest => wrongKey rest
  | ts => wrongMark ts

/-- The options from after their opening brace on, and the rest. A field's name is judged before
anything that follows it. -/
def fieldsOf : List Token → Except Fault (Options × List Token)
  | .closeBrace :: rest => .ok ({}, rest)
  | .string name :: rest =>
    if name = fieldName then
      match rest with
      | .colon :: rest =>
        match mappingOf rest with
        | .ok (t, .closeBrace :: rest) => .ok (⟨t⟩, rest)
        | .ok (_, rest) => .error (wrongField rest)
        | .error f => .error f
      | rest => .error (wrongMark rest)
    else .error (.misfit (.unknownField name))
  | ts => .error (wrongKey ts)

/-- The options from after the opening bracket of an array on, and the rest. -/
def elementsOf : List Token → Except Fault (Options × List Token)
  | .closeBracket :: rest => .ok ({}, rest)
  | ts =>
    match mappingOf ts with
    | .ok (t, .closeBracket :: rest) => .ok (⟨t⟩, rest)
    | .ok (_, rest) => .error (wrongMark rest)
    | .error f => .error f

/-- The options that tokens spell, and the rest. -/
def optionsOf : List Token → Except Fault (Options × List Token)
  | .openBrace :: rest => fieldsOf rest
  | .openBracket :: rest => elementsOf rest
  | ts => .error (wrongStart .options ts)

/-- The options that a text spells. Nothing may follow them. -/
def ofText (s : String) : Except Fault Options :=
  match optionsOf (Json.tokens s.toList) with
  | .ok (o, []) => .ok o
  | .ok (_, _ :: _) => .error (.text .malformed)
  | .error f => .error f

end Relink.Options
