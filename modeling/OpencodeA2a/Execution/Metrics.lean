import OpencodeA2a.Library.Dict
import OpencodeA2a.Library.Exposition
import OpencodeA2a.Library.Table
import OpencodeA2a.Stream.Json
import Mathlib.Data.Char
import Mathlib.Data.List.DropRight
import Mathlib.Data.List.Lex
import Mathlib.Data.List.Sort

/-!
# The metrics registry and its text

`execution/metrics.py`: updates with integer values, labels and all, and the text that
`GET /metrics` answers with. A value is an `int`, or a double that is an integer or an
infinity; the two are added and formatted alike.
-/

namespace OpencodeA2a.Execution

open Exposition SignificantDigits OpencodeA2a.Stream

/-! ## §1  Updates -/

inductive LabelValue where
  | str (text : Text)
  | int (n : ℤ)
  /-- a float, by its `repr` -/
  | float (repr : Text)
  | bool (b : Bool)

/-- `str(value)`, in lower case for a `bool` -/
def LabelValue.text : LabelValue → Text
  | .str text => text
  | .int n => (if n < 0 then ['-'] else []) ++ Nat.toDigits 10 n.natAbs
  | .float repr => repr
  | .bool b => (if b then "true" else "false").toList

/-- The exceptions of the module: two `ValueError`s, with what their texts show, and the
`OverflowError` of an `int` that no double is near to. -/
inductive MetricError where
  | invalidLabelName (key : Text)
  | invalidMetricName (name : Text)
  | overflow
deriving DecidableEq

/-- `_METRIC_NAME_PATTERN` -/
def metricNamePattern : Text → Bool :=
  isIdentifier (fun c => c.isAlpha || c == '_' || c == ':')
    fun c => c.isAlpha || c == '_' || c == ':' || c.isDigit

/-- `_LABEL_NAME_PATTERN` -/
def labelNamePattern : Text → Bool :=
  isIdentifier (fun c => c.isAlpha || c == '_') fun c => c.isAlpha || c == '_' || c.isDigit

/-- A label of the loop of `_normalized_labels` -/
def normalizedLabel (label : Text × LabelValue) : Except MetricError (Text × Text) :=
  if labelNamePattern label.1 then .ok (label.1, label.2.text)
  else .error (.invalidLabelName label.1)

/-- `_normalized_labels` -/
def normalizedLabels (labels : Dict Text LabelValue) : Except MetricError (List (Text × Text)) :=
  (labels.items.insertionSort fun a b => a.1 ≤ b.1).mapM normalizedLabel

abbrev MetricKey := Text × List (Text × Text)

/-- `_registry` -/
abbrev Registry := Dict MetricKey Number

/-- The double that an `int` is converted to. -/
def toFloat (value : ℤ) : Except MetricError ℤ :=
  match toDouble (decide (value < 0)) value.natAbs with
  | .finite d => .ok d
  | .infinite _ => .error .overflow

/-- A double and an `int` added. -/
def addFloat (old : Number) (value : ℤ) : Except MetricError Number :=
  (toFloat value).map fun d => match old with
    | .finite o => toDouble (decide (o + d < 0)) (o + d).natAbs
    | .infinite negative => .infinite negative

/-- `name.endswith("_total") or name.endswith("_active")` -/
def accumulates (name : Text) : Bool :=
  "_total".toList.isSuffixOf name || "_active".toList.isSuffixOf name

/-- `_record_metric` -/
def recordMetric (r : Registry) (name : Text) (value : ℤ) (labels : List (Text × Text)) :
    Except MetricError Registry :=
  if metricNamePattern name then
    if accumulates name then
      (addFloat ((r.get? (name, labels)).getD (.finite 0)) value).map fun v => r.set (name, labels) v
    else .ok (r.set (name, labels) (.finite value))
  else .error (.invalidMetricName name)

/-- The arguments of `emit_metric` -/
structure MetricUpdate where
  name : Text
  value : ℤ
  labels : Dict Text LabelValue

/-- `emit_metric` -/
def emitMetric (r : Registry) (u : MetricUpdate) : Except MetricError Registry :=
  (normalizedLabels u.labels).bind (recordMetric r u.name u.value)

/-- The registry after updates, of which one that raises changes nothing. -/
def Registry.after (r : Registry) (updates : List MetricUpdate) : Registry :=
  updates.foldl (fun r u => (emitMetric r u).toOption.getD r) r

/-! ## §2  The text -/

/-- `value.replace(c, new)` for a character -/
def replaceChar (c : Char) (new value : Text) : Text :=
  value.flatMap fun a => if a = c then new else [a]

/-- `_escape_label_value` -/
def escapeLabelValue (value : Text) : Text :=
  replaceChar '\n' ['\\', 'n'] (replaceChar '"' ['\\', '"'] (replaceChar '\\' ['\\', '\\'] value))

/-- The exponent of `%g`, of two digits at least. -/
def exponentDigits (e : ℕ) : Text := if e < 10 then '0' :: Nat.toDigits 10 e else Nat.toDigits 10 e

/-- `{value:g}` for a magnitude: six significant digits, without zeros at their end. -/
def formatMagnitude (n : ℕ) : Text :=
  let w := roundSig 10 6 n
  if w < 10 ^ 6 then Nat.toDigits 10 w
  else
    -- all digits behind the sixth are zeros
    let fraction := (Nat.toDigits 10 w).tail.rdropWhile (· == '0')
    (Nat.toDigits 10 w).take 1 ++ ((if fraction = [] then [] else '.' :: fraction) ++
      'e' :: '+' :: exponentDigits (Nat.toDigits 10 w).tail.length)

/-- `{value:g}` -/
def formatG : Number → Except MetricError Text
  | .finite v => (toFloat v).map fun d =>
      (if d < 0 then ['-'] else []) ++ formatMagnitude d.natAbs
  | .infinite negative => .ok ((if negative then ['-'] else []) ++ "inf".toList)

/-- `label_text` -/
def labelText (labels : List (Text × Text)) : Text :=
  if labels = [] then []
  else '{' :: ([','].intercalate (labels.map fun (key, value) =>
    key ++ "=\"".toList ++ escapeLabelValue value ++ ['"']) ++ ['}'])

/-- The `HELP` and `TYPE` lines of a name. -/
def declarationLines (name : Text) : List Text :=
  ["# HELP ".toList ++ name ++ " opencode-a2a runtime metric.".toList,
    "# TYPE ".toList ++ name ++ ' ' ::
      (if "_total".toList.isSuffixOf name then "counter" else "gauge").toList]

/-- The loop over the samples. -/
def sampleLines (declared : List Text) : List (MetricKey × Number) → Except MetricError (List Text)
  | [] => .ok []
  | ((name, labels), value) :: samples =>
      (formatG value).bind fun text =>
        (sampleLines (if name ∈ declared then declared else declared ++ [name]) samples).map fun lines =>
          (if name ∈ declared then [] else declarationLines name) ++
            (name ++ labelText labels ++ ' ' :: text) :: lines

/-- The order of tuples of tuples of strings. -/
def labelsBefore : List (Text × Text) → List (Text × Text) → Bool
  | [], _ => true
  | _ :: _, [] => false
  | a :: as, b :: bs =>
      if a = b then labelsBefore as bs else decide (a.1 < b.1 ∨ a.1 = b.1 ∧ a.2 ≤ b.2)

def keyBefore (a b : MetricKey) : Bool :=
  if a.1 = b.1 then labelsBefore a.2 b.2 else decide (a.1 ≤ b.1)

/-- `sorted(_registry.items())` -/
def Registry.sorted (r : Registry) : List (MetricKey × Number) :=
  r.items.insertionSort fun a b => keyBefore a.1 b.1

/-- `render_prometheus_metrics` -/
def renderPrometheusMetrics (r : Registry) : Except MetricError Text :=
  (sampleLines [] r.sorted).map fun lines =>
    ['\n'].intercalate lines ++ if lines = [] then [] else ['\n']

/-! ## §3  The text of a value -/

/-- What a reader makes of the text of a value. -/
def reread : Number → Number
  | .finite v => toDouble (decide (v < 0)) (roundSig 10 6 (roundSig 2 53 v.natAbs))
  | .infinite negative => .infinite negative

theorem isDigit_exponentDigits (e : ℕ) : ∀ c ∈ exponentDigits e, c.isDigit = true := by
  have hdigits : ∀ c ∈ Nat.toDigits 10 e, c.isDigit = true :=
    fun c hc => Nat.isDigit_of_mem_toDigits (by decide) (by decide) hc
  unfold exponentDigits
  split
  · intro c hc
    rcases List.mem_cons.mp hc with rfl | hc
    · rfl
    · exact hdigits c hc
  · exact hdigits

theorem exponentDigits_ne_nil (e : ℕ) : exponentDigits e ≠ [] := by
  unfold exponentDigits
  split
  · exact List.cons_ne_nil _ _
  · exact Nat.toDigits_ne_nil

theorem ofDigitChars_exponentDigits (e : ℕ) : Nat.ofDigitChars 10 (exponentDigits e) 0 = e := by
  unfold exponentDigits
  split
  · exact Nat.ofDigitChars_ten_toDigits
  · exact Nat.ofDigitChars_ten_toDigits

/-- The digits of a number up to its last zeros. -/
theorem toDigits_eq (w : ℕ) : ∃ d fraction n,
    Nat.toDigits 10 w = d :: (fraction ++ List.replicate n '0') ∧
      (Nat.toDigits 10 w).tail.rdropWhile (· == '0') = fraction := by
  cases hdigits : Nat.toDigits 10 w with
  | nil => exact absurd hdigits Nat.toDigits_ne_nil
  | cons d rest =>
      refine ⟨d, rest.rdropWhile (· == '0'), (rest.rtakeWhile (· == '0')).length, ?_, rfl⟩
      have hzeros : rest.rtakeWhile (· == '0') =
          List.replicate (rest.rtakeWhile (· == '0')).length '0' := by
        rw [List.eq_replicate_length]
        intro c hc
        simpa using List.mem_rtakeWhile_imp hc
      rw [← hzeros, List.rdropWhile_append_rtakeWhile]

theorem readNumeral_formatMagnitude (negative : Bool) (n : ℕ) :
    readNumeral negative (formatMagnitude n) = some (toDouble negative (roundSig 10 6 n)) := by
  have hdigits : ∀ c ∈ Nat.toDigits 10 (roundSig 10 6 n), c.isDigit = true :=
    fun c hc => Nat.isDigit_of_mem_toDigits (by decide) (by decide) hc
  unfold formatMagnitude
  simp only
  split
  · rw [readNumeral_digits Nat.toDigits_ne_nil hdigits, Nat.ofDigitChars_ten_toDigits]
  · obtain ⟨d, fraction, zeros, hsplit, hfraction⟩ := toDigits_eq (roundSig 10 6 n)
    rw [hfraction]
    have hvalue := ofDigitChars_exponentDigits (fraction.length + zeros)
    have hread : readNumeral negative _ = _ := readNumeral_scientific (hdigits d (by simp [hsplit]))
      (fun c hc => hdigits c (by simp [hsplit, hc])) (exponentDigits_ne_nil _)
      (isDigit_exponentDigits _) hvalue
    rw [← hsplit, Nat.ofDigitChars_ten_toDigits] at hread
    rw [← hread, hsplit]
    simp

def numeralChar (c : Char) : Bool :=
  c.isDigit || c == '.' || c == 'e' || c == '+' || c == '-'

theorem numeralChar_of_isDigit {c : Char} (h : c.isDigit = true) : numeralChar c = true := by
  unfold numeralChar
  rw [h]
  rfl

/-- A magnitude's text begins with a digit. -/
theorem formatMagnitude_chars (n : ℕ) : ∃ c rest, formatMagnitude n = c :: rest ∧
    c.isDigit = true ∧ ∀ a ∈ rest, numeralChar a = true := by
  have hdigits : ∀ c ∈ Nat.toDigits 10 (roundSig 10 6 n), c.isDigit = true :=
    fun c hc => Nat.isDigit_of_mem_toDigits (by decide) (by decide) hc
  obtain ⟨d, fraction, zeros, hsplit, hfraction⟩ := toDigits_eq (roundSig 10 6 n)
  have hd : d.isDigit = true := hdigits d (by simp [hsplit])
  have hrest : ∀ a ∈ fraction, a.isDigit = true := fun a ha => hdigits a (by simp [hsplit, ha])
  unfold formatMagnitude
  simp only
  split
  · refine ⟨d, _, hsplit, hd, ?_⟩
    intro a ha
    exact numeralChar_of_isDigit (hdigits a (hsplit ▸ List.mem_cons_of_mem _ ha))
  · rw [hfraction]
    refine ⟨d, (if fraction = [] then [] else '.' :: fraction) ++
      'e' :: '+' :: exponentDigits (Nat.toDigits 10 (roundSig 10 6 n)).tail.length, ?_, hd, ?_⟩
    · rw [hsplit]
      rfl
    · intro a ha
      rcases List.mem_append.mp ha with ha | ha
      · split at ha
        · cases ha
        · rcases List.mem_cons.mp ha with rfl | ha
          · rfl
          · exact numeralChar_of_isDigit (hrest a ha)
      · rcases List.mem_cons.mp ha with rfl | ha
        · rfl
        · rcases List.mem_cons.mp ha with rfl | ha
          · rfl
          · exact numeralChar_of_isDigit (isDigit_exponentDigits _ a ha)

theorem toFloat_eq_ok {v d : ℤ} : toFloat v = .ok d ↔
    roundSig 2 53 v.natAbs < doubleLimit ∧ d = signed (decide (v < 0)) (roundSig 2 53 v.natAbs) := by
  unfold toFloat toDouble
  simp only
  by_cases hfits : roundSig 2 53 v.natAbs < doubleLimit
  · rw [if_pos hfits]
    simp only [hfits, true_and, Except.ok.injEq]
    exact eq_comm
  · rw [if_neg hfits]
    simp [hfits]

/-- A double has its integer's sign and the rounded magnitude. -/
theorem toFloat_sign {v d : ℤ} (h : toFloat v = .ok d) :
    (d < 0 ↔ v < 0) ∧ d.natAbs = roundSig 2 53 v.natAbs := by
  obtain ⟨-, rfl⟩ := toFloat_eq_ok.mp h
  unfold signed
  by_cases hneg : v < 0
  · have hpos := roundSig_pos (b := 2) (p := 53) (n := v.natAbs) (by decide) (by decide) (by omega)
    simp only [hneg, decide_true, if_true, iff_true]
    omega
  · simp only [hneg, decide_false, Bool.false_eq_true, if_false, iff_false]
    omega

@[simp] theorem formatG_int (v : ℤ) : formatG (.finite v) = (toFloat v).map fun d =>
    (if d < 0 then ['-'] else []) ++ formatMagnitude d.natAbs := rfl

theorem formatG_finite {v : ℤ} {text : Text} (h : formatG (.finite v) = .ok text) :
    text = (if v < 0 then ['-'] else []) ++ formatMagnitude (roundSig 2 53 v.natAbs) := by
  rw [formatG_int] at h
  cases hfloat : toFloat v with
  | error e =>
      rw [hfloat] at h
      cases h
  | ok d =>
      rw [hfloat] at h
      obtain ⟨hsign, habs⟩ := toFloat_sign hfloat
      obtain rfl := Except.ok.inj h
      simp only [hsign, habs]

/-- A magnitude's text begins neither a sign nor the name of an infinity. -/
theorem formatMagnitude_plain (n : ℕ) :
    readSign (formatMagnitude n) = (false, formatMagnitude n) ∧
      (formatMagnitude n).map Char.toLower ≠ "inf".toList ∧
      (formatMagnitude n).map Char.toLower ≠ "infinity".toList ∧
      formatMagnitude n ≠ [] ∧ (formatMagnitude n).head? ≠ some '{' := by
  obtain ⟨c, rest, hchars, hc, -⟩ := formatMagnitude_chars n
  have hother : ∀ {a : Char}, a.isDigit = false → c ≠ a := fun ha => ne_of_tells hc ha
  have hlower : c.toLower = c := by
    simp only [Char.isDigit, ge_iff_le, Bool.and_eq_true, decide_eq_true_eq] at hc
    unfold Char.toLower
    rw [dif_neg]
    rintro ⟨hupper, -⟩
    exact absurd (UInt32.le_trans hupper hc.2) (by decide)
  rw [hchars]
  refine ⟨?_, ?_, ?_, List.cons_ne_nil _ _, ?_⟩
  · unfold readSign
    split
    · rename_i h
      exact absurd (List.cons.inj h).1 (hother (by decide))
    · rename_i h
      exact absurd (List.cons.inj h).1 (hother (by decide))
    · rfl
  · intro h
    rw [List.map_cons, hlower] at h
    exact hother (a := 'i') (by decide) (List.cons.inj h).1
  · intro h
    rw [List.map_cons, hlower] at h
    exact hother (a := 'i') (by decide) (List.cons.inj h).1
  · intro h
    exact hother (by decide) (Option.some.inj h)

theorem readValue_formatG {v : Number} {text : Text} (h : formatG v = .ok text) :
    readValue text = some (reread v) := by
  cases v with
  | infinite negative =>
      obtain rfl := Except.ok.inj h
      cases negative <;> rfl
  | finite v =>
      have hread := readNumeral_formatMagnitude (decide (v < 0)) (roundSig 2 53 v.natAbs)
      obtain ⟨hplain, hinf, hinfinity, -⟩ := formatMagnitude_plain (roundSig 2 53 v.natAbs)
      have hsign : readSign text = (decide (v < 0), formatMagnitude (roundSig 2 53 v.natAbs)) := by
        rw [formatG_finite h]
        by_cases hneg : v < 0
        · rw [if_pos hneg, decide_eq_true hneg]
          rfl
        · rw [if_neg hneg, decide_eq_false hneg]
          exact hplain
      unfold readValue
      rw [hsign]
      simp only
      rw [if_neg (not_or.mpr ⟨hinf, hinfinity⟩), hread]
      rfl

theorem valueWord_formatG {v : Number} {text : Text} (h : formatG v = .ok text) :
    ValueWord text := by
  cases v with
  | infinite negative =>
      obtain rfl := Except.ok.inj h
      have hblank : ((if negative then ['-'] else []) ++ "inf".toList).all (fun c => !isBlank c) =
          true := by
        cases negative <;> rfl
      constructor
      · cases negative <;> exact List.cons_ne_nil _ _
      · exact fun c hc => (Bool.not_eq_true' _).mp (List.all_eq_true.mp hblank c hc)
      · cases negative <;> decide
      · cases negative <;> decide
  | finite v =>
      obtain ⟨c, rest, hchars, hc, hrest⟩ := formatMagnitude_chars (roundSig 2 53 v.natAbs)
      obtain ⟨-, -, -, -, hbrace⟩ := formatMagnitude_plain (roundSig 2 53 v.natAbs)
      have hall : ∀ a ∈ text, numeralChar a = true := by
        intro a ha
        rw [formatG_finite h, hchars] at ha
        rcases List.mem_append.mp ha with ha | ha
        · split at ha
          · rw [List.mem_singleton.mp ha]
            rfl
          · cases ha
        · rcases List.mem_cons.mp ha with rfl | ha
          · exact numeralChar_of_isDigit hc
          · exact hrest a ha
      constructor
      · rw [formatG_finite h, hchars]
        simp
      · exact fun a ha => isBlank_of_tells (hall a ha) (by decide) (by decide)
      · rw [formatG_finite h]
        split
        · exact fun h => absurd (Option.some.inj h) (by decide)
        · exact hbrace
      · exact fun hmem => ne_of_tells (hall _ hmem) (a := '\n') (by decide) rfl

/-! ## §4  Which values survive -/

/-- The double nearest to an integer of at most six digits and zeros behind them, or an
infinity. -/
def SixDigits : Number → Prop
  | .finite v => ∃ n, Representable 10 6 n ∧ toDouble (decide (v < 0)) n = .finite v
  | .infinite _ => True

theorem toDouble_eq_finite {negative : Bool} {n : ℕ} {v : ℤ} : toDouble negative n = .finite v ↔
    roundSig 2 53 n < doubleLimit ∧ signed negative (roundSig 2 53 n) = v := by
  unfold toDouble
  simp only
  split
  · rename_i hfits
    simp [hfits]
  · rename_i hfits
    simp [hfits]

theorem natAbs_signed (negative : Bool) (n : ℕ) : (signed negative n).natAbs = n := by
  unfold signed
  split
  · rw [Int.natAbs_neg, Int.natAbs_natCast]
  · exact Int.natAbs_natCast n

/-- A value has a text that is read as the value exactly if it is a double of six digits. -/
theorem reread_eq_iff {v : Number} :
    ((∃ text, formatG v = .ok text) ∧ reread v = v) ↔ SixDigits v := by
  cases v with
  | infinite negative => exact iff_of_true ⟨⟨_, rfl⟩, rfl⟩ trivial
  | finite v =>
      constructor
      · rintro ⟨-, hreread⟩
        exact ⟨_, representable_roundSig (by decide) (by decide) _, hreread⟩
      · rintro ⟨n, hdigits, hnear⟩
        have habs : v.natAbs = roundSig 2 53 n := by
          rw [← (toDouble_eq_finite.mp hnear).2, natAbs_signed]
        have hdouble : roundSig 2 53 v.natAbs = v.natAbs := by
          rw [habs]
          exact (representable_roundSig (by decide) (by decide) n).roundSig_eq (by decide)
        have hback : roundSig 10 6 v.natAbs = n := by
          rw [habs]
          exact roundSig_roundSig (by decide) (by decide) hdigits (by decide)
        have hfloat : toFloat v = .ok (signed (decide (v < 0)) (roundSig 2 53 v.natAbs)) := by
          refine toFloat_eq_ok.mpr ⟨?_, rfl⟩
          rw [hdouble, habs]
          exact (toDouble_eq_finite.mp hnear).1
        refine ⟨⟨_, by rw [formatG_int, hfloat]; rfl⟩, ?_⟩
        show toDouble _ (roundSig 10 6 (roundSig 2 53 v.natAbs)) = _
        rw [hdouble, hback]
        exact hnear

/-! ## §5  The text of the registry -/

theorem escapeLabelValue_eq (value : Text) : escapeLabelValue value = escaped value := by
  unfold escapeLabelValue replaceChar escaped
  rw [List.flatMap_assoc, List.flatMap_assoc]
  refine List.flatMap_congr fun c _ => ?_
  unfold escapeChar
  split_ifs with hslash hquote hline
  · rfl
  · subst hquote
    rfl
  · subst hline
    rfl
  · simp [hquote, hline]

theorem labelText_eq (labels : List (Text × Text)) : labelText labels = writeLabels labels := by
  have hlabels : (labels.map fun (key, value) =>
      key ++ "=\"".toList ++ escapeLabelValue value ++ ['"']) = labels.map writeLabel := by
    refine List.map_congr_left fun l _ => ?_
    simp [writeLabel, escapeLabelValue_eq]
  unfold labelText writeLabels
  rw [hlabels]

theorem declarationLines_eq (name : Text) : declarationLines name =
    [helpLine name "opencode-a2a runtime metric.".toList,
      typeLine name (if "_total".toList.isSuffixOf name then "counter" else "gauge").toList] := by
  unfold declarationLines helpLine typeLine
  rw [List.append_assoc, List.append_assoc]
  rfl

/-- The keys that updates make. -/
structure MetricKey.Valid (key : MetricKey) : Prop where
  name : isMetricName key.1 = true
  labels : ∀ l ∈ key.2, isLabelName l.1 = true
  nodup : (key.2.map Prod.fst).Nodup

/-- What a reader makes of a sample. -/
def rereadSample (x : MetricKey × Number) : Sample := ⟨x.1.1, x.1.2, reread x.2⟩

/-- A document whose declared metrics are these, and whose samples are of them. -/
structure Declares (declared : List Text) (d : Document) : Prop where
  helped : d.helped = declared
  typed : d.typed = declared
  samples : ∀ s ∈ d.samples, s.name ∈ declared

variable {declared : List Text} {d : Document} {lines : List Text}

theorem Declares.readDeclaration (h : Declares declared d) {name : Text}
    (hname : isMetricName name = true) (hnew : name ∉ declared) :
    ∃ d', (declarationLines name).foldlM readLine d = some d' ∧
      Declares (declared ++ [name]) d' ∧ d'.samples = d.samples := by
  have htype : (if "_total".toList.isSuffixOf name then "counter" else "gauge").toList ∈
      metricTypes := by
    split
    · decide
    · decide
  have hbefore : name ∉ d.samples.map Sample.name := by
    intro hmem
    obtain ⟨s, hs, rfl⟩ := List.mem_map.mp hmem
    exact hnew (h.samples s hs)
  have hhelp := readLine_helpLine (d := d) hname (h.helped ▸ hnew)
    "opencode-a2a runtime metric.".toList
  have htyped : readLine { d with helped := d.helped ++ [name] } (typeLine name _) = _ :=
    readLine_typeLine hname (h.typed ▸ hnew) hbefore htype
  refine ⟨{ d with helped := d.helped ++ [name], typed := d.typed ++ [name] }, ?_, ?_, rfl⟩
  · rw [declarationLines_eq, List.foldlM_cons, hhelp]
    show (readLine _ _).bind _ = _
    rw [htyped]
    rfl
  · constructor
    · show d.helped ++ [name] = declared ++ [name]
      rw [h.helped]
    · show d.typed ++ [name] = declared ++ [name]
      rw [h.typed]
    · exact fun s hs => List.mem_append_left _ (h.samples s hs)

/-- What the loop makes of its first sample. -/
theorem sampleLines_cons {key : MetricKey} {value : Number} {samples : List (MetricKey × Number)} :
    sampleLines declared ((key, value) :: samples) = .ok lines ↔
      ∃ text rest, formatG value = .ok text ∧
        sampleLines (if key.1 ∈ declared then declared else declared ++ [key.1]) samples = .ok rest ∧
        lines = (if key.1 ∈ declared then [] else declarationLines key.1) ++
          writeSample key.1 key.2 text :: rest := by
  obtain ⟨name, labels⟩ := key
  have hline : ∀ text : Text, name ++ labelText labels ++ ' ' :: text = writeSample name labels text := by
    intro text
    rw [labelText_eq, List.append_assoc]
    rfl
  rw [sampleLines]
  cases formatG value with
  | error e => simp [Except.bind]
  | ok text =>
      cases sampleLines (if name ∈ declared then declared else declared ++ [name]) samples with
      | error e => simp [Except.bind, Except.map]
      | ok rest =>
          simp only [Except.bind, Except.map, hline, Except.ok.injEq]
          constructor
          · rintro rfl
            exact ⟨text, rest, rfl, rfl, rfl⟩
          · rintro ⟨_, _, rfl, rfl, rfl⟩
            rfl

/-- The lines of samples are read as what a reader makes of them. -/
theorem Declares.readSamples {samples : List (MetricKey × Number)}
    (hvalid : ∀ x ∈ samples, x.1.Valid) (hlines : sampleLines declared samples = .ok lines)
    (h : Declares declared d) :
    ∃ d', lines.foldlM readLine d = some d' ∧
      d'.samples = d.samples ++ samples.map rereadSample := by
  induction samples generalizing declared d lines with
  | nil =>
      obtain rfl := Except.ok.inj hlines
      exact ⟨d, rfl, (List.append_nil _).symm⟩
  | cons x samples ih =>
      obtain ⟨key, value⟩ := x
      have hkey : key.Valid := hvalid _ (List.mem_cons_self ..)
      have hrest : ∀ x ∈ samples, x.1.Valid := fun x hx => hvalid x (List.mem_cons_of_mem _ hx)
      obtain ⟨text, rest, htext, hlater, rfl⟩ := sampleLines_cons.mp hlines
      -- the declaration, where there is one
      have hdeclared : ∃ d₁, (if key.1 ∈ declared then [] else declarationLines key.1).foldlM
          readLine d = some d₁ ∧
          Declares (if key.1 ∈ declared then declared else declared ++ [key.1]) d₁ ∧
          d₁.samples = d.samples := by
        split
        · exact ⟨d, rfl, h, rfl⟩
        · rename_i hnew
          exact h.readDeclaration hkey.name hnew
      obtain ⟨d₁, hread₁, h₁, hsamples₁⟩ := hdeclared
      have hsample := readLine_writeSample (d := d₁) hkey.name hkey.labels hkey.nodup
        (valueWord_formatG htext)
      rw [readValue_formatG htext, Option.map_some] at hsample
      have h₂ : Declares (if key.1 ∈ declared then declared else declared ++ [key.1])
          { d₁ with samples := d₁.samples ++ [rereadSample (key, value)] } := by
        refine ⟨h₁.helped, h₁.typed, ?_⟩
        intro s hs
        rcases List.mem_append.mp hs with hs | hs
        · exact h₁.samples s hs
        · rw [List.mem_singleton.mp hs]
          show key.1 ∈ _
          split
          · assumption
          · exact List.mem_append_right _ (List.mem_singleton_self _)
      obtain ⟨d', hread, hsamples⟩ := ih hrest hlater h₂
      refine ⟨d', ?_, ?_⟩
      · rw [List.foldlM_append, hread₁]
        show (List.foldlM readLine d₁ (writeSample key.1 key.2 text :: rest)) = _
        rw [List.foldlM_cons, hsample]
        exact hread
      · rw [hsamples, hsamples₁, List.map_cons, List.append_assoc]
        rfl

theorem newline_not_mem_declarationLines {name : Text} (hname : isMetricName name = true) :
    ∀ line ∈ declarationLines name, '\n' ∉ line := by
  have htype : '\n' ∉ (if "_total".toList.isSuffixOf name then "counter" else "gauge").toList := by
    split
    · decide
    · decide
  rw [declarationLines_eq, List.forall_mem_cons, List.forall_mem_singleton]
  exact ⟨newline_not_mem_helpLine hname (by decide), newline_not_mem_typeLine hname htype⟩

theorem newline_not_mem_sampleLines {samples : List (MetricKey × Number)}
    (hvalid : ∀ x ∈ samples, x.1.Valid) (hlines : sampleLines declared samples = .ok lines) :
    ∀ line ∈ lines, '\n' ∉ line := by
  induction samples generalizing declared lines with
  | nil =>
      obtain rfl := Except.ok.inj hlines
      exact List.forall_mem_nil _
  | cons x samples ih =>
      obtain ⟨key, value⟩ := x
      have hkey : key.Valid := hvalid _ (List.mem_cons_self ..)
      obtain ⟨text, rest, htext, hlater, rfl⟩ := sampleLines_cons.mp hlines
      intro line hline
      rcases List.mem_append.mp hline with hline | hline
      · split at hline
        · cases hline
        · exact newline_not_mem_declarationLines hkey.name line hline
      · rcases List.mem_cons.mp hline with rfl | hline
        · exact newline_not_mem_writeSample hkey.name hkey.labels (valueWord_formatG htext)
        · exact ih (fun x hx => hvalid x (List.mem_cons_of_mem _ hx)) hlater line hline

/-- The loop comes to its end exactly if every value has a text. -/
theorem sampleLines_ok {samples : List (MetricKey × Number)} :
    (∃ lines, sampleLines declared samples = .ok lines) ↔
      ∀ x ∈ samples, ∃ text, formatG x.2 = .ok text := by
  induction samples generalizing declared with
  | nil => exact iff_of_true ⟨[], rfl⟩ (List.forall_mem_nil _)
  | cons x samples ih =>
      obtain ⟨key, value⟩ := x
      rw [List.forall_mem_cons, ← ih]
      constructor
      · rintro ⟨lines, hlines⟩
        obtain ⟨text, rest, htext, hlater, -⟩ := sampleLines_cons.mp hlines
        exact ⟨⟨text, htext⟩, rest, hlater⟩
      · rintro ⟨⟨text, htext⟩, rest, hlater⟩
        exact ⟨_, sampleLines_cons.mpr ⟨text, rest, htext, hlater, rfl⟩⟩

/-! ## §6  The registry -/

/-- A registry of which every key is one that updates make. -/
def Registry.Valid (r : Registry) : Prop := ∀ x ∈ r.items, x.1.Valid

theorem normalizedLabels_ok {labels : List (Text × LabelValue)} {normalized : List (Text × Text)}
    (h : labels.mapM normalizedLabel = .ok normalized) :
    normalized.map Prod.fst = labels.map Prod.fst ∧ ∀ l ∈ normalized, isLabelName l.1 = true := by
  induction labels generalizing normalized with
  | nil =>
      obtain rfl := Except.ok.inj h
      exact ⟨rfl, List.forall_mem_nil _⟩
  | cons l labels ih =>
      rw [List.mapM_cons] at h
      obtain ⟨first, hfirst, hothers⟩ := bind_eq_ok.mp h
      obtain ⟨rest, hrest, hpure⟩ := bind_eq_ok.mp hothers
      obtain ⟨hkeys, hnames⟩ := ih hrest
      obtain rfl := Except.ok.inj hpure
      unfold normalizedLabel at hfirst
      split at hfirst
      · rename_i hname
        obtain rfl := Except.ok.inj hfirst
        rw [List.map_cons, List.map_cons, hkeys]
        exact ⟨rfl, List.forall_mem_cons.mpr ⟨hname, hnames⟩⟩
      · cases hfirst

theorem MetricKey.valid_of_normalized {labels : Dict Text LabelValue}
    {normalized : List (Text × Text)} (h : normalizedLabels labels = .ok normalized) {name : Text}
    (hname : metricNamePattern name = true) : MetricKey.Valid (name, normalized) := by
  obtain ⟨hkeys, hnames⟩ := normalizedLabels_ok h
  refine ⟨hname, hnames, ?_⟩
  show (normalized.map Prod.fst).Nodup
  rw [hkeys]
  exact (List.Perm.map _ (List.perm_insertionSort _ _)).nodup_iff.mpr labels.nodup

/-- What an update that does not raise writes. -/
theorem emitMetric_ok {r r' : Registry} {u : MetricUpdate} (h : emitMetric r u = .ok r') :
    ∃ key value, MetricKey.Valid key ∧ r' = r.set key value := by
  unfold emitMetric at h
  cases hlabels : normalizedLabels u.labels with
  | error e =>
      rw [hlabels] at h
      cases h
  | ok labels =>
      rw [hlabels] at h
      change recordMetric r u.name u.value labels = .ok r' at h
      unfold recordMetric at h
      split at h
      · rename_i hname
        refine ⟨(u.name, labels), ?_⟩
        have hkey := MetricKey.valid_of_normalized hlabels hname
        split at h
        · cases hsum : addFloat ((r.get? (u.name, labels)).getD (.finite 0)) u.value with
          | error e =>
              rw [hsum] at h
              cases h
          | ok v =>
              rw [hsum] at h
              exact ⟨v, hkey, (Except.ok.inj h).symm⟩
        · exact ⟨.finite u.value, hkey, (Except.ok.inj h).symm⟩
      · cases h

theorem Registry.Valid.emit {r r' : Registry} {u : MetricUpdate} (hr : r.Valid)
    (h : emitMetric r u = .ok r') : r'.Valid := by
  obtain ⟨key, value, hkey, rfl⟩ := emitMetric_ok h
  rintro ⟨k, v⟩ hx
  have hget := Dict.get?_eq_some.mpr hx
  rw [Dict.get?_set] at hget
  split at hget
  · rename_i hk
    rw [hk]
    exact hkey
  · exact hr (k, v) (Dict.get?_eq_some.mp hget)

theorem Registry.valid_after {r : Registry} (hr : r.Valid) (updates : List MetricUpdate) :
    (r.after updates).Valid := by
  induction updates generalizing r with
  | nil => exact hr
  | cons u updates ih =>
      have hstep : ((emitMetric r u).toOption.getD r).Valid := by
        cases hemit : emitMetric r u with
        | error e => exact hr
        | ok r' => exact hr.emit hemit
      exact ih hstep

/-- The samples of the text are those of the registry. -/
def Registry.Recovers (r : Registry) : Prop :=
  ∃ text samples, renderPrometheusMetrics r = .ok text ∧ parse text = some samples ∧
    (samples.map fun s => ((s.name, s.labels), s.value)).Perm r.items

/-- A text of the registry is read as what a reader makes of its samples. -/
theorem Registry.Valid.parse_render {r : Registry} (hr : r.Valid) {text : Text}
    (h : renderPrometheusMetrics r = .ok text) : parse text = some (r.sorted.map rereadSample) := by
  have hsorted : ∀ x ∈ r.sorted, x.1.Valid :=
    fun x hx => hr x ((List.mem_insertionSort _).mp hx)
  unfold renderPrometheusMetrics at h
  cases hlines : sampleLines [] r.sorted with
  | error e =>
      rw [hlines] at h
      cases h
  | ok lines =>
      rw [hlines] at h
      obtain rfl := Except.ok.inj h
      rw [parse_lines (newline_not_mem_sampleLines hsorted hlines)]
      have hempty : Declares [] ⟨[], [], []⟩ := ⟨rfl, rfl, List.forall_mem_nil _⟩
      obtain ⟨d, hread, hsamples⟩ := hempty.readSamples hsorted hlines
      rw [hread, Option.map_some, hsamples]
      rfl

/-- The names and labels of the samples are never lost, nor two samples merged. -/
theorem Registry.Valid.keys_recovered {r : Registry} (hr : r.Valid) {text : Text}
    (h : renderPrometheusMetrics r = .ok text) :
    ∃ samples, parse text = some samples ∧
      (samples.map fun s => (s.name, s.labels)).Perm r.keys := by
  refine ⟨_, hr.parse_render h, ?_⟩
  rw [List.map_map]
  exact (List.perm_insertionSort _ _).map Prod.fst

theorem Registry.Valid.recovers_iff {r : Registry} (hr : r.Valid) :
    r.Recovers ↔ ∀ x ∈ r.items, SixDigits x.2 := by
  have hmem : ∀ {x}, x ∈ r.sorted ↔ x ∈ r.items := List.mem_insertionSort _
  have hsamples : (r.sorted.map rereadSample).map (fun s => ((s.name, s.labels), s.value)) =
      r.sorted.map fun x => (x.1, reread x.2) := by
    rw [List.map_map]
    rfl
  constructor
  · rintro ⟨text, samples, htext, hparse, hperm⟩ x hx
    rw [hr.parse_render htext] at hparse
    obtain rfl := Option.some.inj hparse
    rw [hsamples] at hperm
    have hformatted : ∃ lines, sampleLines [] r.sorted = .ok lines := by
      unfold renderPrometheusMetrics at htext
      cases hlines : sampleLines [] r.sorted with
      | error e =>
          rw [hlines] at htext
          cases htext
      | ok lines => exact ⟨lines, rfl⟩
    refine reread_eq_iff.mp ⟨sampleLines_ok.mp hformatted x (hmem.mpr hx), ?_⟩
    -- the key has one value in the registry
    have hreread : (x.1, reread x.2) ∈ r.items :=
      hperm.mem_iff.mp (List.mem_map_of_mem (f := fun x => (x.1, reread x.2)) (hmem.mpr hx))
    have hget : r.get? x.1 = some x.2 := Dict.get?_eq_some.mpr hx
    rw [Dict.get?_eq_some.mpr hreread] at hget
    exact Option.some.inj hget
  · intro hdigits
    have heach : ∀ x ∈ r.sorted, (∃ text, formatG x.2 = .ok text) ∧ reread x.2 = x.2 :=
      fun x hx => reread_eq_iff.mpr (hdigits x (hmem.mp hx))
    have hformatted : ∃ lines, sampleLines [] r.sorted = .ok lines :=
      sampleLines_ok.mpr fun x hx => (heach x hx).1
    obtain ⟨lines, hlines⟩ := hformatted
    have htext : ∃ text, renderPrometheusMetrics r = .ok text := by
      unfold renderPrometheusMetrics
      rw [hlines]
      exact ⟨_, rfl⟩
    obtain ⟨text, htext⟩ := htext
    refine ⟨text, _, htext, hr.parse_render htext, ?_⟩
    have hsame : r.sorted.map (fun x => (x.1, reread x.2)) = r.sorted.map id :=
      List.map_congr_left fun x hx => Prod.ext rfl (heach x hx).2
    rw [hsamples, hsame, List.map_id]
    exact List.perm_insertionSort _ _

/-! ## §7  Round trip -/

/-- After any updates with integer values, reading the text recovers the samples of the registry
exactly if every value is a double of at most six significant digits. -/
theorem metrics_recovered_iff (updates : List MetricUpdate) :
    (Registry.after .empty updates).Recovers ↔
      ∀ x ∈ (Registry.after .empty updates).items, SixDigits x.2 := by
  have hempty : Registry.Valid .empty := List.forall_mem_nil _
  exact (Registry.valid_after hempty updates).recovers_iff

/-- An update that adds one. -/
def increment (name : Text) : MetricUpdate := ⟨name, 1, .empty⟩

theorem toDouble_of_lt {n : ℕ} (h : n < 2 ^ 53) : toDouble false n = .finite n := by
  refine toDouble_eq_finite.mpr ⟨?_, ?_⟩
  · rw [roundSig_of_lt (by decide) h]
    exact h.trans (pow_lt_doubleLimit (by decide))
  · rw [roundSig_of_lt (by decide) h]
    rfl

theorem addFloat_one {m : ℕ} (hm : m + 1 < 2 ^ 53) :
    addFloat (.finite m) 1 = .ok (.finite (m + 1 : ℕ)) := by
  have hdouble : toDouble false 1 = .finite (1 : ℕ) := toDouble_of_lt (by decide)
  have hone : toFloat 1 = .ok 1 := by
    refine toFloat_eq_ok.mpr ⟨?_, ?_⟩
    · exact (toDouble_eq_finite.mp hdouble).1
    · exact (toDouble_eq_finite.mp hdouble).2.symm
  have hsign : decide ((m : ℤ) + 1 < 0) = false := decide_eq_false (by omega)
  have habs : ((m : ℤ) + 1).natAbs = m + 1 := by omega
  unfold addFloat
  rw [hone]
  show Except.ok (toDouble (decide ((m : ℤ) + 1 < 0)) ((m : ℤ) + 1).natAbs) = _
  rw [hsign, habs, toDouble_of_lt hm]

/-- A counter counts. -/
theorem after_increments {name : Text} (hname : metricNamePattern name = true)
    (hcounts : accumulates name = true) {n : ℕ} (hn : n < 2 ^ 53) :
    (Registry.after .empty (List.replicate n (increment name))).items =
      if n = 0 then [] else [((name, []), .finite n)] := by
  have hemit : ∀ r : Registry, emitMetric r (increment name) =
      (addFloat ((r.get? (name, [])).getD (.finite 0)) 1).map fun v => r.set (name, []) v := by
    intro r
    show recordMetric r name 1 [] = _
    unfold recordMetric
    rw [if_pos hname, if_pos hcounts]
  induction n with
  | zero => rfl
  | succ n ih =>
      have hitems := ih (Nat.lt_of_succ_lt hn)
      rw [List.replicate_succ', Registry.after, List.foldl_append, List.foldl_cons, List.foldl_nil]
      rw [Registry.after] at hitems
      generalize List.foldl _ _ _ = r at hitems ⊢
      have hget : (r.get? (name, [])).getD (.finite 0) = .finite n := by
        split at hitems
        · subst n
          unfold Dict.get?
          rw [hitems]
          rfl
        · have hmem : ((name, []), .finite n) ∈ r.items := by
            rw [hitems]
            exact List.mem_singleton_self _
          rw [Dict.get?_eq_some.mpr hmem]
          rfl
      have hset : ∀ v, (r.set (name, []) v).items = [((name, []), v)] := by
        intro v
        show Dict.assign _ v r.items = _
        rw [hitems]
        split
        · rfl
        · exact if_pos rfl
      rw [hemit, hget, addFloat_one hn, if_neg (Nat.succ_ne_zero n)]
      exact hset _

/-- The value of a counter that has been increased a million and one times is rounded. -/
theorem count_rounded : ¬ (Registry.after .empty
    (List.replicate 1000001 (increment "a2a_stream_requests_total".toList))).Recovers := by
  have hempty : Registry.Valid .empty := List.forall_mem_nil _
  rw [(Registry.valid_after hempty _).recovers_iff,
    after_increments (by decide) (by decide) (by decide), if_neg (by decide)]
  intro h
  have hreread := (reread_eq_iff.mpr (h _ (List.mem_singleton_self _))).2
  exact absurd hreread (by decide +kernel)

end OpencodeA2a.Execution
