import Relink.Json.Token

/-!
# JSON values

Model of the JSON library's `Value`, of its `to_string` and of its `from_str`, which `package_main`
reads manifests with. A value, its compact text, and a reader of values. The reader is a machine that
takes one token at a time: `State` holds the arrays and objects that are still open and what may come
next. Objects keep their members in order, those with equal keys too.

* `Json.text` writes a value without blanks.
* `Json.ofText limit` reads a text in which at most `limit` arrays and objects lie inside one another.
* `Json.member?` looks a key up; of several members with one key the last counts.
-/

namespace Relink

/-- A JSON value. -/
inductive Json where
  | null
  | bool (b : Bool)
  | number (n : Json.Number)
  | string (text : String)
  | array (items : List Json)
  | object (members : List (String × Json))
deriving Repr

namespace Json

mutual

/-- The tokens of a value. -/
def toTokens : Json → List Token
  | .null => [.null]
  | .bool b => [.bool b]
  | .number n => [.number n]
  | .string s => [.string s]
  | .array items => .openBracket :: itemTokens items ++ [.closeBracket]
  | .object members => .openBrace :: memberTokens members ++ [.closeBrace]

/-- The tokens of an array's items, with commas between them. -/
def itemTokens : List Json → List Token
  | [] => []
  | [v] => v.toTokens
  | v :: rest => v.toTokens ++ .comma :: itemTokens rest

/-- The tokens of an object's members, with commas between them. -/
def memberTokens : List (String × Json) → List Token
  | [] => []
  | [(k, v)] => .string k :: .colon :: v.toTokens
  | (k, v) :: rest => .string k :: .colon :: v.toTokens ++ .comma :: memberTokens rest

end

/-- The compact text of a value. -/
def text (v : Json) : String :=
  String.ofList (v.toTokens.flatMap Token.text)

/-- The value of the last member with this key. -/
def member? (key : String) : Json → Option Json
  | .object members => (members.reverse.find? fun m => m.1 = key).map Prod.snd
  | _ => none

/-- An array or an object that is still open, with what it holds so far, last first. -/
inductive Frame where
  | array (done : List Json)
  /-- An object whose member `key` is being read. -/
  | object (done : List (String × Json)) (key : String)

/-- What may come next. -/
inductive Expect where
  | value
  /-- A first item or the end of the array. -/
  | itemOrClose
  /-- A key of the object that holds these members. -/
  | key (done : List (String × Json))
  /-- A first key or the end of the object. -/
  | keyOrClose
  | colon (done : List (String × Json)) (key : String)
  /-- What follows a complete value. -/
  | after (v : Json)

/-- How far a text has been read. -/
structure State where
  expect : Expect
  frames : List Frame

namespace State

/-- Nothing has been read. -/
def start : State := ⟨.value, []⟩

/-- A token where a value may start. -/
def value (limit : Nat) (frames : List Frame) : Token → Except Fault State
  | .null => .ok ⟨.after .null, frames⟩
  | .bool b => .ok ⟨.after (.bool b), frames⟩
  | .number n => .ok ⟨.after (.number n), frames⟩
  | .string s => .ok ⟨.after (.string s), frames⟩
  | .openBracket =>
    if frames.length < limit then .ok ⟨.itemOrClose, .array [] :: frames⟩ else .error .malformed
  | .openBrace =>
    if frames.length < limit then .ok ⟨.keyOrClose, frames⟩ else .error .malformed
  | .broken _ f => .error f
  | _ => .error .malformed

/-- A token where a key has to stand. -/
def key (done : List (String × Json)) (frames : List Frame) : Token → Except Fault State
  | .string k => .ok ⟨.colon done k, frames⟩
  | .broken true f => .error f
  | _ => .error .malformed

/-- A token after a complete value. -/
def after (v : Json) : List Frame → Token → Except Fault State
  | .array done :: frames, .comma => .ok ⟨.value, .array (v :: done) :: frames⟩
  | .array done :: frames, .closeBracket => .ok ⟨.after (.array (v :: done).reverse), frames⟩
  | .object done k :: frames, .comma => .ok ⟨.key ((k, v) :: done), frames⟩
  | .object done k :: frames, .closeBrace => .ok ⟨.after (.object ((k, v) :: done).reverse), frames⟩
  | _, _ => .error .malformed

/-- One token further. -/
def step (limit : Nat) (s : State) (t : Token) : Except Fault State :=
  match s.expect, s.frames, t with
  | .value, frames, t => value limit frames t
  | .itemOrClose, .array _ :: frames, .closeBracket => .ok ⟨.after (.array []), frames⟩
  | .itemOrClose, frames, t => value limit frames t
  | .keyOrClose, frames, .closeBrace => .ok ⟨.after (.object []), frames⟩
  | .keyOrClose, frames, t => key [] frames t
  | .key done, frames, t => key done frames t
  | .colon done k, frames, .colon => .ok ⟨.value, .object done k :: frames⟩
  | .colon _ _, _, _ => .error .malformed
  | .after v, frames, t => after v frames t

/-- The value that has been read, if it is complete. -/
def finish : State → Except Fault Json
  | ⟨.after v, []⟩ => .ok v
  | _ => .error .truncated

end State

/-- The value that the tokens spell, with at most `limit` open arrays and objects. -/
def ofTokens (limit : Nat) (ts : List Token) : Except Fault Json :=
  (ts.foldlM (State.step limit) State.start).bind State.finish

/-- The value that a text spells, with at most `limit` open arrays and objects. -/
def ofText (limit : Nat) (s : String) : Except Fault Json :=
  ofTokens limit (tokens s.toList)

end Json

end Relink
