import OpencodeA2a.Library.Strip

/-!
# Texts and decoded JSON

`stream_events` hands `consume` the decoded payload of each server-sent event.
A text is the list of its code points.
-/

namespace OpencodeA2a.Stream

/-! ## §1  Texts -/

abbrev Text := List Char

instance lawfulBEqText : LawfulBEq Text := inferInstance

instance (t : Text) (ts : List Text) : Decidable (t ∈ ts) :=
  List.instDecidableMemOfLawfulBEq t ts

/-- `str.isspace` for one code point. -/
def isSpace (c : Char) : Bool :=
  let n := c.toNat
  (9 ≤ n && n ≤ 13) || (28 ≤ n && n ≤ 32) || n == 0x85 || n == 0xa0 || n == 0x1680 ||
    (0x2000 ≤ n && n ≤ 0x200a) || n == 0x2028 || n == 0x2029 || n == 0x202f || n == 0x205f ||
    n == 0x3000

/-- `str.strip()` -/
def Text.strip (t : Text) : Text := Strip.strip isSpace t

/-- `str.lower()`, for texts that are compared with lower-case ASCII words: the
one code point outside ASCII that is lowered to a single ASCII letter gives `k`,
which no such word contains. -/
def Text.lower (t : Text) : Text := t.map Char.toLower

/-- A text of white space, the empty text included. -/
def Text.Blank (t : Text) : Prop := Strip.Blank isSpace t

instance (t : Text) : Decidable t.Blank := inferInstanceAs (Decidable (Strip.Blank isSpace t))

theorem Text.blank_iff {t : Text} : t.Blank ↔ t.strip = [] := Strip.blank_iff_strip

theorem Text.strip_strip (t : Text) : t.strip.strip = t.strip := by
  by_cases h : t.Blank
  · rw [Text.blank_iff.mp h]
    rfl
  · exact (Strip.core_strip h).2

theorem Text.not_blank_strip {t : Text} (h : ¬ t.Blank) : ¬ t.strip.Blank := by
  rw [Text.blank_iff, Text.strip_strip, ← Text.blank_iff]
  exact h

/-! ## §2  JSON values -/

inductive Json where
  | null
  | bool (b : Bool)
  | int (n : ℤ)
  /-- a number with a fraction or an exponent as it is written, and whether its
  value is zero -/
  | float (lit : Text) (isZero : Bool)
  | str (s : Text)
  | arr (items : List Json)
  | obj (entries : List (Text × Json))

/-- The entries of a JSON object; a key occurs once. -/
abbrev Mapping := List (Text × Json)

namespace Json

def asMapping? : Json → Option Mapping
  | .obj m => some m
  | _ => none

def asStr? : Json → Option Text
  | .str s => some s
  | _ => none

def asList? : Json → Option (List Json)
  | .arr items => some items
  | _ => none

/-- What `isinstance(value, int)` lets through, with `str(value)`: the booleans
are integers. -/
def asInt? : Json → Option (ℤ × Text)
  | .int n => some (n, (toString n).toList)
  | .bool true => some (1, "True".toList)
  | .bool false => some (0, "False".toList)
  | _ => none

end Json

namespace Mapping

def get? (m : Mapping) (key : String) : Option Json := m.lookup key.toList

def getStr? (m : Mapping) (key : String) : Option Text := (m.get? key).bind Json.asStr?

def getMapping? (m : Mapping) (key : String) : Option Mapping :=
  (m.get? key).bind Json.asMapping?

/-- `m[key] = value` -/
def set (m : Mapping) (key : Text) (value : Json) : Mapping :=
  if m.any fun e => e.1 = key then m.map fun e => if e.1 = key then (key, value) else e
  else m ++ [(key, value)]

/-- `{**m, **m'}` -/
def merge (m m' : Mapping) : Mapping := m'.foldl (fun m e => m.set e.1 e.2) m

/-- `error_data if isinstance(error_data, Mapping) else {}` -/
def getMappingD (m : Mapping) (key : String) : Mapping := (m.getMapping? key).getD []

end Mapping

/-- The text, unless it is blank, stripped. -/
def nonempty? (t : Text) : Option Text :=
  if t.strip = [] then none else some t.strip

theorem nonempty?_eq_some {t s : Text} (h : nonempty? t = some s) :
    s = t.strip ∧ ¬ t.Blank := by
  unfold nonempty? at h
  split at h
  · cases h
  · rename_i hne
    refine ⟨(Option.some.inj h).symm, ?_⟩
    rwa [Text.blank_iff]

theorem nonempty?_eq_none {t : Text} : nonempty? t = none ↔ t.Blank := by
  unfold nonempty?
  rw [Text.blank_iff]
  split <;> simp_all

theorem nonempty?_of_not_blank {t : Text} (h : ¬ t.Blank) : nonempty? t = some t.strip := by
  unfold nonempty?
  rw [Text.blank_iff] at h
  rw [if_neg h]

/-- `_extract_first_nonempty_string` -/
def extractFirstNonemptyString (source : Mapping) : List String → Option Text
  | [] => none
  | key :: keys =>
      match (source.getStr? key).bind nonempty? with
      | some t => some t
      | none => extractFirstNonemptyString source keys

/-- `_extract_optional_string` -/
def extractOptionalString (source : Mapping) (key : String) : Option Text :=
  (source.getStr? key).bind nonempty?

theorem extractFirstNonemptyString_singleton (source : Mapping) (key : String) :
    extractFirstNonemptyString source [key] = extractOptionalString source key := by
  unfold extractFirstNonemptyString extractOptionalString
  split
  · rename_i t h
    rw [h]
  · rename_i h
    rw [h]
    rfl

end OpencodeA2a.Stream
