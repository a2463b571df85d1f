import Mathlib.Data.Bool.AllAny
import OpencodeA2a.Library.Quoted
import OpencodeA2a.Stream.Json

/-!
# Server-sent events

`stream_events`: the lines of the upstream's event stream, and the JSON objects that
are decoded from them.
-/

namespace OpencodeA2a.Stream

/-! ## §1  Lines -/

/-- What ends a line for `str.splitlines`. -/
def isLineBreak (c : Char) : Bool :=
  let n := c.toNat
  (10 ≤ n && n ≤ 13) || (28 ≤ n && n ≤ 30) || n == 0x85 || n == 0x2028 || n == 0x2029

/-- How a sender ends its lines. -/
inductive LineEnd where
  | lf
  | crlf
  | cr
deriving DecidableEq

def LineEnd.text : LineEnd → Text
  | lf => ['\n']
  | crlf => ['\r', '\n']
  | cr => ['\r']

/-- `"\n".join(lines)` -/
def joinLines : List Text → Text
  | [] => []
  | [l] => l
  | l :: l' :: lines => l ++ '\n' :: joinLines (l' :: lines)

/-- `"\n".join(data_lines).strip()` -/
def payloadOf (dataLines : List Text) : Text := (joinLines dataLines).strip

/-- The character stands in a string of the value, or in a key. -/
inductive Json.Holds (c : Char) : Json → Prop
  | str {s : Text} : c ∈ s → Holds c (.str s)
  | item {items : List Json} {v : Json} : v ∈ items → Holds c v → Holds c (.arr items)
  | key {entries : Mapping} {e : Text × Json} : e ∈ entries → c ∈ e.1 → Holds c (.obj entries)
  | value {entries : Mapping} {e : Text × Json} :
      e ∈ entries → Holds c e.2 → Holds c (.obj entries)

/-- The lexical side of JSON: no control characters in strings, and between the strings
ASCII only. -/
def jsonGrammar : Quoted.Grammar Char where
  quote := '"'
  escape := '\\'
  outer c :=
    c.toNat < 128 && c != '\\' &&
      (32 ≤ c.toNat || c.toNat == 9 || c.toNat == 10 || c.toNat == 13)
  inner c := 32 ≤ c.toNat
  escaped c := "\"\\/bfnrtu".toList.contains c
  quote_ne_escape := by decide
  outer_escape := by decide

/-- `json.loads`, `none` where it raises `JSONDecodeError`. -/
structure JsonReader where
  loads : Text → Option Json
  /-- What is read keeps to the grammar. -/
  lexical : ∀ {t v}, loads t = some v → Quoted.read jsonGrammar .outside t = some .outside
  /-- Where nothing is escaped, strings are read as they stand in the text. -/
  verbatim : ∀ {t v c}, loads t = some v → '\\' ∉ t → v.Holds c → c ∈ t

/-! ## §4  A stream as it is sent -/

/-- The text of an object on one line, where what is not ASCII is written as it is. -/
structure Written (json : JsonReader) (t : Text) (m : Mapping) : Prop where
  loads : json.loads t = some (.obj m)
  braces : ∃ body, t = '{' :: body ++ ['}']
  oneLine : ∀ c ∈ t, c ≠ '\n' ∧ c ≠ '\r'
  unescaped : ∀ c : Char, 128 ≤ c.toNat → (c ∈ t ↔ (Json.obj m).Holds c)

/-- An event, and the text it is sent as. -/
structure SentEvent (json : JsonReader) where
  payload : Mapping
  text : Text
  written : Written json text payload

/-- What may stand between events. -/
inductive KeepAlive where
  | comment (text : Text) (oneLine : ∀ c ∈ text, isLineBreak c = false)
  | blank

def KeepAlive.line : KeepAlive → Text
  | comment text _ => ':' :: text
  | blank => []

/-- Events with what stands before each, and what stands after the last. -/
structure EventStream (json : JsonReader) where
  blocks : List (List KeepAlive × SentEvent json)
  trailing : List KeepAlive

namespace EventStream

variable {json : JsonReader}

def blockLines (b : List KeepAlive × SentEvent json) : List Text :=
  b.1.map KeepAlive.line ++ ["data: ".toList ++ b.2.text, []]

def lines (s : EventStream json) : List Text :=
  s.blocks.flatMap blockLines ++ s.trailing.map KeepAlive.line

end EventStream

end OpencodeA2a.Stream
