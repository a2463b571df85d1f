import OpencodeA2a.Library.SignificantDigits
import Mathlib.Data.List.Basic
import Mathlib.Data.List.Nodup

/-!
# The Prometheus text format

A document is a sequence of lines, each ended by a line feed: blank ones,
comments, of which those of `HELP` and `TYPE` stand once for a metric and the
`TYPE` before its samples, and samples. A sample has a name, labels in braces,
a value and perhaps a timestamp, with blanks between them. In the value of a
label a backslash, a quote and a line feed are escaped.

Values are doubles that are integers, or an infinity: a numeral of a number
that is no integer is not read.
-/

namespace OpencodeA2a.Exposition

open SignificantDigits

/-! ## §1  Values -/

/-- A double that is an integer, or an infinity. -/
inductive Number where
  | finite (value : ℤ)
  | infinite (negative : Bool)
deriving DecidableEq

/-- An integer given by its sign and magnitude. -/
def signed (negative : Bool) (n : ℕ) : ℤ := if negative then -n else n

/-- Finite doubles are less. -/
@[irreducible] def doubleLimit : ℕ := 2 ^ 1024

theorem pow_lt_doubleLimit {k : ℕ} (hk : k < 1024) : 2 ^ k < doubleLimit := by
  have hpow : ∀ m, k < m → 2 ^ k < 2 ^ m := fun m hm => Nat.pow_lt_pow_right Nat.one_lt_two hm
  unfold doubleLimit
  exact hpow _ hk

/-- The double nearest to an integer. -/
def toDouble (negative : Bool) (n : ℕ) : Number :=
  let d := roundSig 2 53 n
  if d < doubleLimit then .finite (signed negative d) else .infinite negative

def readSign : List Char → Bool × List Char
  | '-' :: t => (true, t)
  | '+' :: t => (false, t)
  | t => (false, t)

/-- The exponent of a numeral, behind its digits. -/
def readExponent : List Char → Option ℤ
  | [] => some 0
  | e :: t =>
      let (negative, digits) := readSign t
      if (e = 'e' ∨ e = 'E') ∧ digits ≠ [] ∧ digits.all Char.isDigit then
        some (signed negative (Nat.ofDigitChars 10 digits 0))
      else none

/-- The fraction of a numeral and what is behind it. -/
def readFraction : List Char → List Char × List Char
  | '.' :: t => (t.takeWhile Char.isDigit, t.dropWhile Char.isDigit)
  | t => ([], t)

/-- `m * 10 ^ e` as a double, where it is an integer. -/
def scaled (negative : Bool) (m : ℕ) (e : ℤ) : Option Number :=
  if 0 ≤ e then some (toDouble negative (m * 10 ^ e.toNat))
  else if 10 ^ (-e).toNat ∣ m then some (toDouble negative (m / 10 ^ (-e).toNat))
  else none

def readNumeral (negative : Bool) (t : List Char) : Option Number :=
  let whole := t.takeWhile Char.isDigit
  let (fraction, t) := readFraction (t.dropWhile Char.isDigit)
  if whole = [] ∧ fraction = [] then none
  else (readExponent t).bind fun e =>
    scaled negative (Nat.ofDigitChars 10 (whole ++ fraction) 0) (e - fraction.length)

def readValue (t : List Char) : Option Number :=
  let (negative, t) := readSign t
  if t.map Char.toLower = "inf".toList ∨ t.map Char.toLower = "infinity".toList then
    some (.infinite negative)
  else readNumeral negative t

/-! ## §2  Samples -/

structure Sample where
  name : List Char
  labels : List (List Char × List Char)
  value : Number
deriving DecidableEq

def isBlank (c : Char) : Bool := c == ' ' || c == '\t'

def skip (t : List Char) : List Char := t.dropWhile isBlank

/-- The next character, if it is `c`, is passed. -/
def expect (c : Char) (t : List Char) : Option (List Char) :=
  if t.head? = some c then some t.tail else none

/-- A text of a first character and others. -/
def isIdentifier (first other : Char → Bool) : List Char → Bool
  | [] => false
  | c :: t => first c && t.all other

def nameStart (c : Char) : Bool := c.isAlpha || c == '_' || c == ':'

def nameChar (c : Char) : Bool := nameStart c || c.isDigit

def labelStart (c : Char) : Bool := c.isAlpha || c == '_'

def labelChar (c : Char) : Bool := labelStart c || c.isDigit

def isMetricName : List Char → Bool := isIdentifier nameStart nameChar

def isLabelName : List Char → Bool := isIdentifier labelStart labelChar

def unescape (c : Char) : Option Char :=
  if c = '\\' ∨ c = '"' then some c else if c = 'n' then some '\n' else none

/-- The text up to the closing quote, and what is behind it; `escaping` behind a backslash. -/
def readLabelValue (escaping : Bool) : List Char → Option (List Char × List Char)
  | [] => none
  | c :: t =>
      if escaping then
        (unescape c).bind fun a =>
          (readLabelValue false t).map fun (value, behind) => (a :: value, behind)
      else if c = '"' then some ([], t)
      else if c = '\\' then readLabelValue true t
      else (readLabelValue false t).map fun (value, behind) => (c :: value, behind)

def readLabel (t : List Char) : Option ((List Char × List Char) × List Char) :=
  let name := (skip t).takeWhile labelChar
  if isLabelName name then
    (expect '=' (skip ((skip t).dropWhile labelChar))).bind fun t =>
      (expect '"' (skip t)).bind fun t =>
        (readLabelValue false t).map fun (value, t) => ((name, value), skip t)
  else none

/-- The labels behind the opening brace, and what is behind the closing one. -/
def readLabels : ℕ → List Char → Option (List (List Char × List Char) × List Char)
  | 0, _ => none
  | fuel + 1, t =>
      match expect '}' (skip t) with
      | some behind => some ([], behind)
      | none => (readLabel t).bind fun (label, t) =>
          match expect ',' t with
          | some t => (readLabels fuel t).map fun (labels, behind) => (label :: labels, behind)
          | none => (expect '}' t).map fun behind => ([label], behind)

def nextWord (t : List Char) : List Char × List Char :=
  ((skip t).takeWhile (fun c => !isBlank c), (skip t).dropWhile fun c => !isBlank c)

/-- A timestamp, or its absence. -/
def isTimestamp (t : List Char) : Bool :=
  t.isEmpty || !(readSign t).2.isEmpty && (readSign t).2.all Char.isDigit

/-- The value and the timestamp, at the end of a line. -/
def readMeasured (t : List Char) : Option Number :=
  let (word, t) := nextWord t
  let (timestamp, t) := nextWord t
  if isTimestamp timestamp ∧ skip t = [] then readValue word else none

def readSample (t : List Char) : Option Sample :=
  let name := t.takeWhile nameChar
  let behind := t.dropWhile nameChar
  if isMetricName name then
    match expect '{' (skip behind) with
    | some t => (readLabels (t.length + 1) t).bind fun (labels, t) =>
        if (labels.map Prod.fst).Nodup then (readMeasured t).map fun v => ⟨name, labels, v⟩ else none
    | none =>
        if behind.head?.any isBlank then (readMeasured behind).map fun v => ⟨name, [], v⟩ else none
  else none

/-! ## §3  Documents -/

/-- What the lines so far have given. -/
structure Document where
  helped : List (List Char)
  typed : List (List Char)
  samples : List Sample
deriving DecidableEq

def metricTypes : List (List Char) :=
  ["counter", "gauge", "histogram", "summary", "untyped"].map String.toList

/-- A comment, behind its `#`. -/
def readComment (d : Document) (t : List Char) : Option Document :=
  let (keyword, t) := nextWord t
  let (name, t) := nextWord t
  if keyword = "HELP".toList then
    if isMetricName name ∧ name ∉ d.helped then some { d with helped := d.helped ++ [name] } else none
  else if keyword = "TYPE".toList then
    if isMetricName name ∧ name ∉ d.typed ∧ name ∉ d.samples.map Sample.name ∧
        (nextWord t).1 ∈ metricTypes ∧ skip (nextWord t).2 = [] then
      some { d with typed := d.typed ++ [name] }
    else none
  else some d

def readLine (d : Document) (line : List Char) : Option Document :=
  match skip line with
  | [] => some d
  | c :: t =>
      if c = '#' then readComment d t
      else (readSample (c :: t)).map fun s => { d with samples := d.samples ++ [s] }

/-- The samples of a document. -/
def parse (t : List Char) : Option (List Sample) :=
  if (t.splitOn '\n').getLast? = some [] then
    ((t.splitOn '\n').foldlM readLine ⟨[], [], []⟩).map Document.samples
  else none

/-! ## §4  Writing labels -/

def escapeChar (c : Char) : List Char :=
  if c = '\\' then ['\\', '\\'] else if c = '"' then ['\\', '"']
  else if c = '\n' then ['\\', 'n'] else [c]

def escaped (value : List Char) : List Char := value.flatMap escapeChar

def writeLabel (label : List Char × List Char) : List Char :=
  label.1 ++ '=' :: '"' :: (escaped label.2 ++ ['"'])

def writeLabels (labels : List (List Char × List Char)) : List Char :=
  if labels = [] then [] else '{' :: ([','].intercalate (labels.map writeLabel) ++ ['}'])

theorem readLabelValue_escapeChar (c : Char) (t : List Char) :
    readLabelValue false (escapeChar c ++ t) =
      (readLabelValue false t).map fun (value, behind) => (c :: value, behind) := by
  unfold escapeChar
  split_ifs with hslash hquote hline
  · subst hslash
    rfl
  · subst hquote
    rfl
  · subst hline
    rfl
  · rw [List.singleton_append, readLabelValue]
    simp [hslash, hquote]

theorem readLabelValue_escaped (value behind : List Char) :
    readLabelValue false (escaped value ++ '"' :: behind) = some (value, behind) := by
  induction value with
  | nil => rfl
  | cons c value ih =>
      unfold escaped at *
      rw [List.flatMap_cons, List.append_assoc, readLabelValue_escapeChar, ih]
      rfl

theorem newline_not_mem_escaped (value : List Char) : '\n' ∉ escaped value := by
  intro h
  obtain ⟨c, -, hc⟩ := List.mem_flatMap.mp h
  unfold escapeChar at hc
  split_ifs at hc with hslash hquote hline
  · simp at hc
  · simp at hc
  · simp at hc
  · exact hline (List.mem_singleton.mp hc).symm

/-! ## §5  Reading what is written -/

/-- What a scan of `p` stops before. -/
def StopsScan (p : Char → Bool) (t : List Char) : Prop := ∀ c ∈ t.head?, p c = false

variable {p : Char → Bool} {word t behind : List Char}

theorem takeWhile_word (hword : ∀ c ∈ word, p c = true) (ht : StopsScan p t) :
    (word ++ t).takeWhile p = word := by
  rw [List.takeWhile_append_of_pos hword]
  cases t with
  | nil => exact List.append_nil word
  | cons c t =>
      rw [List.takeWhile_cons_of_neg (by simpa using ht c rfl)]
      exact List.append_nil word

theorem dropWhile_word (hword : ∀ c ∈ word, p c = true) (ht : StopsScan p t) :
    (word ++ t).dropWhile p = t := by
  rw [List.dropWhile_append_of_pos hword]
  cases t with
  | nil => rfl
  | cons c t => exact List.dropWhile_cons_of_neg (by simpa using ht c rfl)

theorem skip_of_stops (ht : StopsScan isBlank t) : skip t = t := by
  have h : ([] ++ t).dropWhile isBlank = t := dropWhile_word (List.forall_mem_nil _) ht
  exact h

@[simp] theorem skip_cons_of_not {c : Char} (hc : isBlank c = false) : skip (c :: t) = c :: t := by
  apply skip_of_stops
  intro a ha
  obtain rfl := Option.mem_some_iff.mp ha
  exact hc

@[simp] theorem expect_cons (c : Char) : expect c (c :: t) = some t := if_pos rfl

theorem expect_of_ne {c : Char} (h : t.head? ≠ some c) : expect c t = none := if_neg h

theorem stopsScan_nil : StopsScan p [] := by
  rintro c ⟨⟩

theorem stopsScan_cons {c : Char} (h : p c = false) : StopsScan p (c :: t) := by
  rintro a ⟨⟩
  exact h

/-- What tells two characters apart. -/
theorem ne_of_tells {c a : Char} (hc : p c = true) (ha : p a = false) : c ≠ a := by
  rintro rfl
  rw [hc] at ha
  cases ha

theorem isIdentifier_iff {first other : Char → Bool} :
    isIdentifier first other t = true ↔
      ∃ c rest, t = c :: rest ∧ first c = true ∧ ∀ a ∈ rest, other a = true := by
  cases t with
  | nil => simp [isIdentifier]
  | cons c rest => simp [isIdentifier]

theorem isBlank_of_tells {c : Char} (hc : p c = true) (hspace : p ' ' = false)
    (htab : p '\t' = false) : isBlank c = false := by
  unfold isBlank
  simp [ne_of_tells hc hspace, ne_of_tells hc htab]

theorem labelChar_of_mem (h : isLabelName word = true) : ∀ c ∈ word, labelChar c = true := by
  obtain ⟨c, rest, rfl, hc, hrest⟩ := isIdentifier_iff.mp h
  intro a ha
  rcases List.mem_cons.mp ha with rfl | ha
  · exact Bool.or_eq_true_iff.mpr (Or.inl hc)
  · exact hrest a ha

theorem nameChar_of_mem (h : isMetricName word = true) : ∀ c ∈ word, nameChar c = true := by
  obtain ⟨c, rest, rfl, hc, hrest⟩ := isIdentifier_iff.mp h
  intro a ha
  rcases List.mem_cons.mp ha with rfl | ha
  · exact Bool.or_eq_true_iff.mpr (Or.inl hc)
  · exact hrest a ha

/-- A text that begins with a word is not skipped into. -/
theorem skip_word (hne : word ≠ []) (hword : ∀ c ∈ word, isBlank c = false) :
    skip (word ++ t) = word ++ t := by
  cases word with
  | nil => exact absurd rfl hne
  | cons c word => exact skip_of_stops (stopsScan_cons (hword c (List.mem_cons_self ..)))

theorem nextWord_word (hne : word ≠ []) (hword : ∀ c ∈ word, isBlank c = false)
    (ht : StopsScan (fun c => !isBlank c) t) : nextWord (' ' :: (word ++ t)) = (word, t) := by
  have hskip : skip (' ' :: (word ++ t)) = word ++ t :=
    (List.dropWhile_cons_of_pos rfl).trans (skip_word hne hword)
  unfold nextWord
  rw [hskip, takeWhile_word (by simpa using hword) ht, dropWhile_word (by simpa using hword) ht]

/-! Numerals -/

variable {negative : Bool} {digits fraction exponent : List Char}

theorem readExponent_write (hne : exponent ≠ []) (hexponent : ∀ c ∈ exponent, c.isDigit = true) :
    readExponent ('e' :: '+' :: exponent) = some ((Nat.ofDigitChars 10 exponent 0 : ℕ) : ℤ) := by
  unfold readExponent
  simp only [readSign]
  rw [if_pos ⟨Or.inl trivial, hne, by simpa using hexponent⟩]
  rfl

theorem readNumeral_digits (hne : digits ≠ []) (hdigits : ∀ c ∈ digits, c.isDigit = true) :
    readNumeral negative digits = some (toDouble negative (Nat.ofDigitChars 10 digits 0)) := by
  have htake := takeWhile_word hdigits stopsScan_nil
  have hdrop := dropWhile_word hdigits stopsScan_nil
  rw [List.append_nil] at htake hdrop
  unfold readNumeral
  rw [htake, hdrop]
  show (if digits = [] ∧ [] = [] then none else _) = _
  rw [if_neg fun h => hne h.1]
  show scaled negative (Nat.ofDigitChars 10 (digits ++ []) 0) 0 = _
  rw [List.append_nil, scaled, if_pos le_rfl]
  simp

/-- A numeral in scientific notation is read as its digits and as many zeros as its exponent
asks for. -/
theorem readNumeral_scientific {d : Char} {n : ℕ} (hd : d.isDigit = true)
    (hfraction : ∀ c ∈ fraction, c.isDigit = true) (hne : exponent ≠ [])
    (hexponent : ∀ c ∈ exponent, c.isDigit = true)
    (hvalue : Nat.ofDigitChars 10 exponent 0 = fraction.length + n) :
    readNumeral negative
        (d :: ((if fraction = [] then [] else '.' :: fraction) ++ 'e' :: '+' :: exponent)) =
      some (toDouble negative (Nat.ofDigitChars 10 (d :: (fraction ++ List.replicate n '0')) 0)) := by
  have hread := readExponent_write hne hexponent
  have hscaled : scaled negative (Nat.ofDigitChars 10 (d :: fraction) 0)
      ((Nat.ofDigitChars 10 exponent 0 : ℕ) - fraction.length) =
      some (toDouble negative (Nat.ofDigitChars 10 (d :: (fraction ++ List.replicate n '0')) 0)) := by
    have hexp : ((Nat.ofDigitChars 10 exponent 0 : ℕ) : ℤ) - fraction.length = n := by omega
    rw [hexp, scaled, if_pos (Int.natCast_nonneg n), ← List.cons_append, Nat.ofDigitChars_append,
      Nat.ofDigitChars_replicate_zero, Int.toNat_natCast, Nat.mul_comm]
  by_cases hnil : fraction = []
  · subst hnil
    have hword : ∀ c ∈ [d], c.isDigit = true := by simpa using hd
    have hstops : StopsScan Char.isDigit ('e' :: '+' :: exponent) := stopsScan_cons rfl
    have htake := takeWhile_word hword hstops
    have hdrop := dropWhile_word hword hstops
    rw [List.singleton_append] at htake hdrop
    unfold readNumeral
    rw [if_pos rfl, List.nil_append, htake, hdrop]
    show (if [d] = [] ∧ [] = [] then none else (readExponent ('e' :: '+' :: exponent)).bind _) = _
    rw [if_neg fun h => List.cons_ne_nil _ _ h.1, hread]
    exact hscaled
  · have hword : ∀ c ∈ [d], c.isDigit = true := by simpa using hd
    have htake := takeWhile_word hword
      (t := '.' :: (fraction ++ 'e' :: '+' :: exponent)) (stopsScan_cons rfl)
    have hdrop := dropWhile_word hword
      (t := '.' :: (fraction ++ 'e' :: '+' :: exponent)) (stopsScan_cons rfl)
    rw [List.singleton_append] at htake hdrop
    have hstops : StopsScan Char.isDigit ('e' :: '+' :: exponent) := stopsScan_cons rfl
    unfold readNumeral
    rw [if_neg hnil, List.cons_append, htake, hdrop]
    simp only [readFraction]
    rw [takeWhile_word hfraction hstops, dropWhile_word hfraction hstops,
      if_neg fun h => List.cons_ne_nil _ _ h.1, hread]
    exact hscaled

/-! Labels -/

theorem readLabel_writeLabel {name value : List Char} (hname : isLabelName name = true) :
    readLabel (writeLabel (name, value) ++ t) = some ((name, value), skip t) := by
  have hchars := labelChar_of_mem hname
  have hblank : ∀ c ∈ name, isBlank c = false :=
    fun c hc => isBlank_of_tells (hchars c hc) (by decide) (by decide)
  have hne : name ≠ [] := by
    rintro rfl
    cases hname
  have htext : writeLabel (name, value) ++ t = name ++ '=' :: '"' :: (escaped value ++ '"' :: t) := by
    simp [writeLabel]
  unfold readLabel
  rw [htext, skip_word hne hblank, takeWhile_word hchars (stopsScan_cons (by decide)),
    dropWhile_word hchars (stopsScan_cons (by decide)), if_pos hname]
  rw [skip_cons_of_not (by decide), expect_cons, Option.bind_some, skip_cons_of_not (by decide),
    expect_cons, Option.bind_some, readLabelValue_escaped]
  rfl

theorem expect_brace_writeLabel {l : List Char × List Char} (hname : isLabelName l.1 = true) :
    expect '}' (skip (writeLabel l ++ t)) = none := by
  obtain ⟨name, value⟩ := l
  obtain ⟨c, rest, rfl, hc, -⟩ := isIdentifier_iff.mp hname
  have hblank : isBlank c = false := isBlank_of_tells hc (by decide) (by decide)
  show expect '}' (skip (c :: _)) = none
  rw [skip_cons_of_not hblank]
  exact expect_of_ne fun h => ne_of_tells hc (a := '}') (by decide) (Option.some.inj h)

theorem readLabels_write {labels : List (List Char × List Char)} (hne : labels ≠ [])
    (hnames : ∀ l ∈ labels, isLabelName l.1 = true) {fuel : ℕ} (hfuel : labels.length ≤ fuel) :
    readLabels fuel ([','].intercalate (labels.map writeLabel) ++ '}' :: t) = some (labels, t) := by
  induction labels generalizing fuel with
  | nil => exact absurd rfl hne
  | cons l labels ih =>
      obtain ⟨fuel, rfl⟩ : ∃ n, fuel = n + 1 :=
        Nat.exists_eq_add_one.mpr (Nat.lt_of_lt_of_le (Nat.succ_pos _) hfuel)
      have hl := hnames l (List.mem_cons_self ..)
      cases labels with
      | nil =>
          rw [List.map_singleton, List.intercalate_singleton, readLabels, expect_brace_writeLabel hl]
          simp only
          rw [readLabel_writeLabel hl, Option.bind_some, skip_cons_of_not (by decide)]
          rfl
      | cons l' labels =>
          rw [List.map_cons, List.map_cons, List.intercalate_cons_cons, ← List.map_cons,
            List.append_assoc, List.append_assoc, List.singleton_append, readLabels,
            expect_brace_writeLabel hl]
          simp only
          rw [readLabel_writeLabel hl, Option.bind_some, skip_cons_of_not (by decide)]
          simp only [expect_cons]
          rw [ih (List.cons_ne_nil _ _) (fun l hl => hnames l (List.mem_cons_of_mem _ hl))
            (Nat.le_of_succ_le_succ hfuel)]
          rfl

theorem length_le_intercalate (labels : List (List Char × List Char)) :
    labels.length ≤ ([','].intercalate (labels.map writeLabel)).length := by
  induction labels with
  | nil => exact Nat.le_refl 0
  | cons l labels ih =>
      have hl : 1 ≤ (writeLabel l).length := by
        unfold writeLabel
        rw [List.length_append, List.length_cons]
        omega
      by_cases hnil : labels = []
      · subst hnil
        simpa using hl
      · rw [List.map_cons, List.intercalate_cons_of_ne_nil (by simpa using hnil)]
        simp only [List.length_cons, List.length_append, List.length_nil]
        omega

theorem mem_intercalate {α : Type} {sep : List α} {ls : List (List α)} {a : α}
    (h : a ∈ sep.intercalate ls) : a ∈ sep ∨ ∃ l ∈ ls, a ∈ l := by
  induction ls with
  | nil => cases h
  | cons l ls ih =>
      by_cases hnil : ls = []
      · subst hnil
        rw [List.intercalate_singleton] at h
        exact Or.inr ⟨l, List.mem_singleton_self _, h⟩
      · rw [List.intercalate_cons_of_ne_nil hnil, List.append_assoc] at h
        rcases List.mem_append.mp h with h | h
        · exact Or.inr ⟨l, List.mem_cons_self .., h⟩
        · rcases List.mem_append.mp h with h | h
          · exact Or.inl h
          · rcases ih h with h | ⟨l', hl', h⟩
            · exact Or.inl h
            · exact Or.inr ⟨l', List.mem_cons_of_mem _ hl', h⟩

/-! Lines -/

/-- A word that can stand as the value of a sample. -/
structure ValueWord (word : List Char) : Prop where
  ne_nil : word ≠ []
  noBlank : ∀ c ∈ word, isBlank c = false
  noBrace : word.head? ≠ some '{'
  noNewline : '\n' ∉ word

theorem readMeasured_word (h : ValueWord word) : readMeasured (' ' :: word) = readValue word := by
  have hnext := nextWord_word h.ne_nil h.noBlank stopsScan_nil
  rw [List.append_nil] at hnext
  unfold readMeasured
  rw [hnext]
  rfl

/-- The line of a sample, with a word for its value. -/
def writeSample (name : List Char) (labels : List (List Char × List Char)) (word : List Char) :
    List Char :=
  name ++ (writeLabels labels ++ ' ' :: word)

variable {name : List Char} {labels : List (List Char × List Char)}

theorem readSample_write (hname : isMetricName name = true)
    (hnames : ∀ l ∈ labels, isLabelName l.1 = true) (hnodup : (labels.map Prod.fst).Nodup)
    (h : ValueWord word) :
    readSample (writeSample name labels word) = (readValue word).map fun v => ⟨name, labels, v⟩ := by
  have hchars := nameChar_of_mem hname
  have hstops : StopsScan nameChar (writeLabels labels ++ ' ' :: word) := by
    unfold writeLabels
    split
    · exact stopsScan_cons (by decide)
    · exact stopsScan_cons (by decide)
  unfold readSample writeSample
  simp only [takeWhile_word hchars hstops, dropWhile_word hchars hstops]
  rw [if_pos hname]
  by_cases hnil : labels = []
  · subst hnil
    have hskip : skip (writeLabels [] ++ ' ' :: word) = word := by
      have hword := skip_word (t := []) h.ne_nil h.noBlank
      rw [List.append_nil] at hword
      exact (List.dropWhile_cons_of_pos rfl).trans hword
    rw [hskip, expect_of_ne h.noBrace]
    simp only
    rw [if_pos (by rfl)]
    exact congrArg (Option.map _) (readMeasured_word h)
  · have htext : writeLabels labels ++ ' ' :: word =
        '{' :: ([','].intercalate (labels.map writeLabel) ++ '}' :: ' ' :: word) := by
      simp [writeLabels, hnil]
    have hfuel : labels.length ≤
        ([','].intercalate (labels.map writeLabel) ++ '}' :: ' ' :: word).length + 1 := by
      have := length_le_intercalate labels
      rw [List.length_append]
      omega
    rw [htext, skip_cons_of_not (by decide), expect_cons]
    simp only
    rw [readLabels_write hnil hnames hfuel, Option.bind_some]
    simp only
    rw [if_pos hnodup, readMeasured_word h]

theorem newline_not_mem_name (hname : isMetricName name = true) : '\n' ∉ name :=
  fun h => ne_of_tells (nameChar_of_mem hname _ h) (a := '\n') (by decide) rfl

theorem newline_not_mem_writeLabel {l : List Char × List Char} (hname : isLabelName l.1 = true) :
    '\n' ∉ writeLabel l := by
  have hkey : '\n' ∉ l.1 :=
    fun h => ne_of_tells (labelChar_of_mem hname _ h) (a := '\n') (by decide) rfl
  simp [writeLabel, hkey, newline_not_mem_escaped]

theorem newline_not_mem_writeLabels (hnames : ∀ l ∈ labels, isLabelName l.1 = true) :
    '\n' ∉ writeLabels labels := by
  unfold writeLabels
  split
  · exact List.not_mem_nil
  · have hall : ∀ l ∈ labels.map writeLabel, '\n' ∉ l := by
      intro l hl
      obtain ⟨label, hlabel, rfl⟩ := List.mem_map.mp hl
      exact newline_not_mem_writeLabel (hnames label hlabel)
    have hjoined : '\n' ∉ [','].intercalate (labels.map writeLabel) := by
      intro h
      rcases mem_intercalate h with h | ⟨l, hl, hmem⟩
      · simp at h
      · exact hall l hl hmem
    simp [hjoined]

theorem newline_not_mem_writeSample (hname : isMetricName name = true)
    (hnames : ∀ l ∈ labels, isLabelName l.1 = true) (h : ValueWord word) :
    '\n' ∉ writeSample name labels word := by
  have hlabels := newline_not_mem_writeLabels hnames
  have hnewline := h.noNewline
  have hhead := newline_not_mem_name hname
  simp [writeSample, hhead, hlabels, hnewline]

variable {d : Document}

/-- The line of a sample is read as the sample. -/
theorem readLine_writeSample (hname : isMetricName name = true)
    (hnames : ∀ l ∈ labels, isLabelName l.1 = true) (hnodup : (labels.map Prod.fst).Nodup)
    (h : ValueWord word) :
    readLine d (writeSample name labels word) = (readValue word).map fun v =>
      { d with samples := d.samples ++ [⟨name, labels, v⟩] } := by
  have hread := readSample_write hname hnames hnodup h
  obtain ⟨c, rest, rfl, hc, -⟩ := isIdentifier_iff.mp hname
  have hblank : isBlank c = false := isBlank_of_tells hc (by decide) (by decide)
  have hhash : c ≠ '#' := ne_of_tells hc (by decide)
  have htext : writeSample (c :: rest) labels word =
      c :: (rest ++ (writeLabels labels ++ ' ' :: word)) := rfl
  rw [htext] at hread ⊢
  unfold readLine
  rw [skip_cons_of_not hblank]
  simp only
  rw [if_neg hhash, hread, Option.map_map]
  rfl

def helpLine (name help : List Char) : List Char := "# HELP ".toList ++ (name ++ ' ' :: help)

def typeLine (name type : List Char) : List Char := "# TYPE ".toList ++ (name ++ ' ' :: type)

theorem noBlank_of_name (hname : isMetricName name = true) :
    name ≠ [] ∧ ∀ c ∈ name, isBlank c = false := by
  constructor
  · rintro rfl
    cases hname
  · exact fun c hc => isBlank_of_tells (nameChar_of_mem hname c hc) (by decide) (by decide)

theorem readLine_helpLine (hname : isMetricName name = true) (hnew : name ∉ d.helped)
    (help : List Char) :
    readLine d (helpLine name help) = some { d with helped := d.helped ++ [name] } := by
  obtain ⟨hne, hblank⟩ := noBlank_of_name hname
  have hkeyword : nextWord (" HELP ".toList ++ (name ++ ' ' :: help)) =
      ("HELP".toList, ' ' :: (name ++ ' ' :: help)) := rfl
  have hnext : nextWord (' ' :: (name ++ ' ' :: help)) = (name, ' ' :: help) :=
    nextWord_word hne hblank (stopsScan_cons rfl)
  show readComment d (" HELP ".toList ++ (name ++ ' ' :: help)) = _
  unfold readComment
  rw [hkeyword]
  simp only
  rw [hnext]
  simp only
  rw [if_pos trivial, if_pos ⟨hname, hnew⟩]

theorem readLine_typeLine {type : List Char} (hname : isMetricName name = true)
    (hnew : name ∉ d.typed) (hbefore : name ∉ d.samples.map Sample.name)
    (htype : type ∈ metricTypes) :
    readLine d (typeLine name type) = some { d with typed := d.typed ++ [name] } := by
  obtain ⟨hne, hblank⟩ := noBlank_of_name hname
  have hkeyword : nextWord (" TYPE ".toList ++ (name ++ ' ' :: type)) =
      ("TYPE".toList, ' ' :: (name ++ ' ' :: type)) := rfl
  have hnext : nextWord (' ' :: (name ++ ' ' :: type)) = (name, ' ' :: type) :=
    nextWord_word hne hblank (stopsScan_cons rfl)
  have hlast : nextWord (' ' :: type) = (type, []) := by
    simp only [metricTypes, List.map_cons, List.map_nil, List.mem_cons, List.not_mem_nil, or_false]
      at htype
    rcases htype with rfl | rfl | rfl | rfl | rfl <;> rfl
  show readComment d (" TYPE ".toList ++ (name ++ ' ' :: type)) = _
  unfold readComment
  rw [hkeyword]
  simp only
  rw [hnext]
  simp only
  rw [hlast, if_neg (by decide), if_pos trivial, if_pos ⟨hname, hnew, hbefore, htype, rfl⟩]

theorem newline_not_mem_helpLine (hname : isMetricName name = true) {help : List Char}
    (hhelp : '\n' ∉ help) : '\n' ∉ helpLine name help := by
  intro h
  rcases List.mem_append.mp h with h | h
  · exact absurd h (by decide)
  · rcases List.mem_append.mp h with h | h
    · exact newline_not_mem_name hname h
    · exact hhelp (List.mem_of_ne_of_mem (by decide) h)

theorem newline_not_mem_typeLine (hname : isMetricName name = true) {type : List Char}
    (htype : '\n' ∉ type) : '\n' ∉ typeLine name type := by
  intro h
  rcases List.mem_append.mp h with h | h
  · exact absurd h (by decide)
  · rcases List.mem_append.mp h with h | h
    · exact newline_not_mem_name hname h
    · exact htype (List.mem_of_ne_of_mem (by decide) h)

/-! Documents -/

theorem intercalate_concat_nil {α : Type} (sep : List α) {ls : List (List α)} (h : ls ≠ []) :
    sep.intercalate (ls ++ [[]]) = sep.intercalate ls ++ sep := by
  induction ls with
  | nil => exact absurd rfl h
  | cons l ls ih =>
      by_cases hnil : ls = []
      · subst hnil
        simp
      · have hlast : ls ++ [[]] ≠ [] := by simp
        rw [List.cons_append, List.intercalate_cons_of_ne_nil hlast,
          List.intercalate_cons_of_ne_nil hnil, ih hnil]
        simp only [List.append_assoc]

/-- A document of lines is read line by line. -/
theorem parse_lines {lines : List (List Char)} (h : ∀ line ∈ lines, '\n' ∉ line) :
    parse (['\n'].intercalate lines ++ if lines = [] then [] else ['\n']) =
      (lines.foldlM readLine ⟨[], [], []⟩).map Document.samples := by
  have htext : ['\n'].intercalate lines ++ (if lines = [] then [] else ['\n']) =
      ['\n'].intercalate (lines ++ [[]]) := by
    split
    · subst lines
      rfl
    · rename_i hne
      exact (intercalate_concat_nil ['\n'] hne).symm
  have hsplit : (['\n'].intercalate (lines ++ [[]])).splitOn '\n' = lines ++ [[]] := by
    apply List.splitOn_intercalate
    · intro line hline
      rcases List.mem_append.mp hline with hline | hline
      · exact h line hline
      · rw [List.mem_singleton.mp hline]
        exact List.not_mem_nil
    · simp
  unfold parse
  rw [htext, hsplit, List.getLast?_concat, if_pos rfl, List.foldlM_append]
  cases hlines : lines.foldlM readLine ⟨[], [], []⟩ with
  | none => rfl
  | some d => rfl

end OpencodeA2a.Exposition
