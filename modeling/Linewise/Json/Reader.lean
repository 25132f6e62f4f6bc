/-
Reading a JSON text.

* `JsonReading` — a text that is read in part: what may come next, and the
  containers that are open;
* `JsonReading.step` — the reading after one more token;
* `Json.ofString` — the value that a text spells as a whole.

Design notes: an open container keeps its items or members latest first, and an
object the name of the member whose value is being read.
-/
import Linewise.Json.Token

namespace Linewise

/-- A container that is open, with what it holds so far, latest first. -/
inductive JsonFrame
  | array (items : List Json)
  | object (members : List (String × Json))
  /-- An object with the name of the member whose value comes next. -/
  | member (members : List (String × Json)) (name : String)

/-- What may come next. -/
inductive JsonExpected
  | value
  | valueOrEnd
  | name
  | nameOrEnd
  | colon
  /-- A comma or the end of the innermost container. -/
  | commaOrEnd
  /-- Nothing: the text has spelled a value. -/
  | nothing (value : Json)

/-- A text that is read in part. -/
structure JsonReading where
  expected : JsonExpected
  /-- The containers that are open, innermost first. -/
  frames : List JsonFrame

namespace JsonReading

/-- Nothing is read yet. -/
def start : JsonReading := ⟨.value, []⟩

/-- The reading after a whole value inside the given containers. -/
def complete (value : Json) : List JsonFrame → Except JsonFault JsonReading
  | [] => .ok ⟨.nothing value, []⟩
  | .array items :: frames => .ok ⟨.commaOrEnd, .array (value :: items) :: frames⟩
  | .member members name :: frames =>
    .ok ⟨.commaOrEnd, .object ((name, value) :: members) :: frames⟩
  | .object _ :: _ => .error .unexpectedToken

/-- The reading after the start of a value. -/
def beginValue (frames : List JsonFrame) : JsonToken → Except JsonFault JsonReading
  | .null => complete .null frames
  | .bool b => complete (.bool b) frames
  | .number x => complete (.number x) frames
  | .string s => complete (.string s) frames
  | .beginArray => .ok ⟨.valueOrEnd, .array [] :: frames⟩
  | .beginObject => .ok ⟨.nameOrEnd, .object [] :: frames⟩
  | _ => .error .unexpectedToken

/-- The reading after the end of the innermost container. -/
def close (t : JsonToken) : List JsonFrame → Except JsonFault JsonReading
  | .array items :: frames =>
    if t = .endArray then complete (.array items.reverse) frames else .error .unexpectedToken
  | .object members :: frames =>
    if t = .endObject then complete (.ofMembers members.reverse) frames
    else .error .unexpectedToken
  | _ => .error .unexpectedToken

/-- The reading after the name of a member. -/
def beginMember (t : JsonToken) : List JsonFrame → Except JsonFault JsonReading
  | .object members :: frames =>
    match t with
    | .string name => .ok ⟨.colon, .member members name :: frames⟩
    | _ => .error .unexpectedToken
  | _ => .error .unexpectedToken

/-- What comes after a comma in the innermost container. -/
def afterComma : List JsonFrame → JsonExpected
  | .object _ :: _ => .name
  | _ => .value

/-- The reading after one more token. -/
def step (r : JsonReading) (t : JsonToken) : Except JsonFault JsonReading :=
  match r.expected with
  | .value => beginValue r.frames t
  | .valueOrEnd => if t = .endArray then close t r.frames else beginValue r.frames t
  | .name => beginMember t r.frames
  | .nameOrEnd => if t = .endObject then close t r.frames else beginMember t r.frames
  | .colon => if t = .colon then .ok { r with expected := .value } else .error .unexpectedToken
  | .commaOrEnd =>
    if t = .comma then .ok { r with expected := afterComma r.frames } else close t r.frames
  | .nothing _ => .error .unexpectedToken

/-- The value that the text has spelled, at its end. -/
def finish (r : JsonReading) : Except JsonFault Json :=
  match r.expected with
  | .nothing value => .ok value
  | _ => .error .unexpectedEnd

end JsonReading

/-- The value that a text spells as a whole. -/
def Json.ofString (text : String) : Except JsonFault Json := do
  let tokens ← JsonToken.ofChars text.toList
  let reading ← tokens.foldlM JsonReading.step JsonReading.start
  reading.finish

end Linewise
