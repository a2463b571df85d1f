import OpencodeA2a.Library.Pattern

/-!
# Masking of absolute file system paths

The three patterns of the masker of error texts, and which delimited POSIX paths it
replaces as a whole: those in which every dot and every slash is directly followed by a
character of a name.
-/

namespace OpencodeA2a.Redact

open OpencodeA2a.Pattern

/-! ## §1  Characters -/

/-- `str.isspace` of one character. -/
def isSpace (c : Char) : Bool :=
  (9 ≤ c.toNat && c.toNat ≤ 13) || (28 ≤ c.toNat && c.toNat ≤ 32) ||
    (8192 ≤ c.toNat && c.toNat ≤ 8202) ||
    [133, 160, 5760, 8232, 8233, 8239, 8287, 12288].contains c.toNat

def isQuote (c : Char) : Bool := [34, 39, 96, 8216, 8217, 8220, 8221].contains c.toNat

def isDelimiter (c : Char) : Bool := isSpace c || isQuote c

/-- `\w`: which letters and digits Unicode has beyond those of ASCII is left open. -/
structure WordChars where
  isWord : Char → Bool
  ascii : ∀ c, c.toNat < 128 → isWord c = (c.isAlphanum || c == '_')
  delimiter : ∀ c, isDelimiter c = true → isWord c = false

theorem toNat_of_isAlpha {c : Char} (h : c.isAlpha = true) :
    65 ≤ c.toNat ∧ c.toNat ≤ 90 ∨ 97 ≤ c.toNat ∧ c.toNat ≤ 122 := by
  have hrange : (decide (c.val ≥ 'A'.val ∧ c.val ≤ 'Z'.val) ||
      c.val ≥ 'a'.val && c.val ≤ 'z'.val) = true := h
  simpa [UInt32.le_iff_toNat_le] using hrange

theorem toNat_of_isAlphanum {c : Char} (h : c.isAlphanum = true) :
    48 ≤ c.toNat ∧ c.toNat ≤ 57 ∨ 65 ≤ c.toNat ∧ c.toNat ≤ 90 ∨
      97 ≤ c.toNat ∧ c.toNat ≤ 122 := by
  rw [Char.isAlphanum, Bool.or_eq_true] at h
  rcases h with h | h
  · exact Or.inr (toNat_of_isAlpha h)
  · left
    simpa [Char.isDigit, UInt32.le_iff_toNat_le] using h

theorem isDelimiter_eq_true {c : Char} (h : isDelimiter c = true) :
    c.toNat ≤ 34 ∨ c.toNat = 39 ∨ c.toNat = 96 ∨ 133 ≤ c.toNat := by
  simp only [isDelimiter, isSpace, isQuote, Bool.or_eq_true, Bool.and_eq_true, decide_eq_true_eq,
    List.contains_iff_mem, List.mem_cons, List.not_mem_nil, or_false] at h
  omega

/-- The word characters of a text that has no others than those of ASCII. -/
def WordChars.asciiOnly : WordChars where
  isWord := fun c => c.isAlphanum || c == '_'
  ascii := fun _ _ => rfl
  delimiter := by
    intro c hc
    have hc := isDelimiter_eq_true hc
    rw [Bool.eq_false_iff]
    intro h
    rw [Bool.or_eq_true] at h
    rcases h with h | h
    · have h := toNat_of_isAlphanum h
      omega
    · rw [beq_iff_eq] at h
      subst h
      simp at hc

/-! ## §2  The patterns -/

/-- A class of single characters. -/
def among (cs : List Char) (c : Char) : Bool := cs.contains c

def char (c : Char) : Regex Char := .symbol (among [c])

/-- `[\\/]` -/
def separator : Regex Char := .symbol (among ['\\', '/'])

/-- `[A-Za-z]` -/
def letter : Regex Char := .symbol Char.isAlpha

/-- `[A-Za-z]` in either case, which takes four more characters. -/
def letterIgnoreCase : Regex Char :=
  .symbol fun c => c.isAlpha || among ['\u0130', '\u0131', '\u017f', '\u212a'] c

section Patterns

variable (W : WordChars)

/-- `[\w@+%-]` -/
def nameChar (c : Char) : Bool := W.isWord c || among ['@', '+', '%', '-'] c

/-- `[\w@+%-]+` -/
def name : Regex Char := Regex.plus (.symbol (nameChar W))

/-- `_SEGMENT` -/
def segment : Regex Char := .seq (name W) (.star (.seq (char '.') (name W)))

/-- `_POSIX_ABSOLUTE_PATH` -/
def posixAbsolutePath : Regex Char :=
  .seq (.notBehind fun c => W.isWord c || among ['\\', '/', '.'] c)
    (.seq (Regex.plus (.seq (char '/') (segment W)))
      (.notAhead fun c => W.isWord c || among [':', '/', '{'] c))

/-- `_WINDOWS_ABSOLUTE_PATH` -/
def windowsAbsolutePath : Regex Char :=
  .seq (.notBehind fun c => W.isWord c || among ['\\', '/'] c)
    (.seq
      (.alt (.seq letter (.seq (char ':') separator))
        (.seq (char '\\') (.seq (char '\\') (.seq (name W) separator))))
      (.seq (segment W) (.star (.seq separator (segment W)))))

/-- `_FILE_URL_PATH` -/
def fileUrlPath : Regex Char :=
  Regex.literal
    [among ['f', 'F'], among ['i', 'I', '\u0130', '\u0131'], among ['l', 'L'], among ['e', 'E'],
      among [':'], among ['/'], among ['/']]
    (.seq
      (.alt (.seq letterIgnoreCase (.seq (char ':') separator))
        (.alt
          (.seq (name W)
            (.seq (.star (.seq (.symbol (among ['.', ':'])) (name W))) (char '/')))
          (char '/')))
      (.seq (segment W) (.star (.seq (char '/') (segment W)))))

end Patterns

/-- `REDACTED_PATH_PLACEHOLDER` -/
def placeholder : List Char := "<redacted-path>".toList

def redactAbsolutePaths (W : WordChars) (text : List Char) : List Char :=
  let redacted := sub (fileUrlPath W) placeholder text
  let redacted := sub (windowsAbsolutePath W) placeholder redacted
  sub (posixAbsolutePath W) placeholder redacted

/-! ## §3  Delimiters -/

/-- Characters beyond those of names that some pattern takes or asks for. -/
def marks : List Char := ['.', '/', ':', '\\', '{', '\u0130', '\u0131', '\u017f', '\u212a']

/-- No match holds the character, and no look-around asks for it. -/
def isNeutral (W : WordChars) (c : Char) : Bool := !(nameChar W c || among marks c)

theorem isWord_of_isAlphanum (W : WordChars) {c : Char} (h : c.isAlphanum = true) :
    W.isWord c = true := by
  have hcode := toNat_of_isAlphanum h
  rw [W.ascii c (by omega), h]
  rfl

theorem isWord_of_isAlpha (W : WordChars) {c : Char} (h : c.isAlpha = true) :
    W.isWord c = true := by
  apply isWord_of_isAlphanum
  rw [Char.isAlphanum, h, Bool.true_or]

theorem isNeutral_of_delimiter (W : WordChars) {d : Char} (hd : isDelimiter d = true) :
    isNeutral W d = true := by
  have hnone : ∀ cs : List Char, cs.any isDelimiter = false → among cs d = false := by
    intro cs hcs
    rw [Bool.eq_false_iff]
    intro h
    exact List.any_eq_false.mp hcs d (List.contains_iff_mem.mp h) hd
  unfold isNeutral nameChar
  rw [W.delimiter d hd, hnone _ (by decide), hnone marks (by decide)]
  rfl

section Neutral

variable {W : WordChars} {d : Char} (hd : isNeutral W d = true)

include hd

theorem nameChar_of_neutral : nameChar W d = false := by
  unfold isNeutral at hd
  rw [Bool.not_eq_true', Bool.or_eq_false_iff] at hd
  exact hd.1

theorem isWord_of_neutral : W.isWord d = false :=
  (Bool.or_eq_false_iff.mp (nameChar_of_neutral hd)).1

theorem isAlpha_of_neutral : d.isAlpha = false := by
  rw [Bool.eq_false_iff]
  intro h
  have hword := isWord_of_isAlpha W h
  rw [isWord_of_neutral hd] at hword
  cases hword

/-- The character is in no class made of letters and of marks. -/
theorem among_of_neutral {cs : List Char}
    (hcs : cs.all (fun c => c.isAlpha || among marks c) = true) : among cs d = false := by
  rw [Bool.eq_false_iff]
  intro h
  have hclass := List.all_eq_true.mp hcs d (List.contains_iff_mem.mp h)
  rw [isAlpha_of_neutral hd, Bool.false_or] at hclass
  unfold isNeutral at hd
  rw [hclass, Bool.or_true] at hd
  cases hd

theorem avoids_name : Avoids d (name W) := ⟨nameChar_of_neutral hd, nameChar_of_neutral hd⟩

theorem avoids_segment : Avoids d (segment W) :=
  ⟨avoids_name hd, among_of_neutral hd (by decide), avoids_name hd⟩

theorem avoids_posixAbsolutePath : Avoids d (posixAbsolutePath W) := by
  have hslash : Avoids d (char '/') := among_of_neutral hd (by decide)
  have hstep : Avoids d (.seq (char '/') (segment W)) := ⟨hslash, avoids_segment hd⟩
  refine ⟨?_, ⟨hstep, hstep⟩, ?_⟩
  · show (W.isWord d || among ['\\', '/', '.'] d) = false
    rw [isWord_of_neutral hd, among_of_neutral hd (by decide)]
    rfl
  · show (W.isWord d || among [':', '/', '{'] d) = false
    rw [isWord_of_neutral hd, among_of_neutral hd (by decide)]
    rfl

theorem avoids_windowsAbsolutePath : Avoids d (windowsAbsolutePath W) := by
  have hseparator : Avoids d separator := among_of_neutral hd (by decide)
  have hback : Avoids d (char '\\') := among_of_neutral hd (by decide)
  refine ⟨?_, ⟨⟨?_, ?_, hseparator⟩, hback, hback, avoids_name hd, hseparator⟩,
    avoids_segment hd, hseparator, avoids_segment hd⟩
  · show (W.isWord d || among ['\\', '/'] d) = false
    rw [isWord_of_neutral hd, among_of_neutral hd (by decide)]
    rfl
  · exact isAlpha_of_neutral hd
  · exact among_of_neutral hd (by decide)

theorem avoids_fileUrlPath : Avoids d (fileUrlPath W) := by
  have hslash : Avoids d (char '/') := among_of_neutral hd (by decide)
  have hletter : Avoids d letterIgnoreCase := by
    show (d.isAlpha || among ['\u0130', '\u0131', '\u017f', '\u212a'] d) = false
    rw [isAlpha_of_neutral hd, among_of_neutral hd (by decide)]
    rfl
  refine ⟨?_, ?_, ?_, ?_, ?_, ?_, ?_,
    ⟨⟨hletter, ?_, ?_⟩, ⟨avoids_name hd, ⟨?_, avoids_name hd⟩, hslash⟩, hslash⟩,
    avoids_segment hd, hslash, avoids_segment hd⟩
  -- every remaining class is one of single characters
  all_goals exact among_of_neutral hd (by decide)

/-- What stands before and behind a neutral character is masked in each part on its own. -/
theorem redactAbsolutePaths_neutral (x y : List Char) :
    redactAbsolutePaths W (x ++ d :: y) =
      redactAbsolutePaths W x ++ d :: redactAbsolutePaths W y := by
  simp only [redactAbsolutePaths]
  rw [sub_delimiter (avoids_fileUrlPath hd), sub_delimiter (avoids_windowsAbsolutePath hd),
    sub_delimiter (avoids_posixAbsolutePath hd)]

end Neutral

section Delimiters

variable (W : WordChars) {d : Char}

theorem redactAbsolutePaths_delimiter (hd : isDelimiter d = true) (x y : List Char) :
    redactAbsolutePaths W (x ++ d :: y) =
      redactAbsolutePaths W x ++ d :: redactAbsolutePaths W y :=
  redactAbsolutePaths_neutral (isNeutral_of_delimiter W hd) x y

@[simp] theorem redactAbsolutePaths_nil : redactAbsolutePaths W [] = [] := rfl

/-- A text between delimiters is masked on its own. -/
theorem redactAbsolutePaths_delimited {a b : List Char}
    (ha : ∀ c ∈ a.getLast?, isDelimiter c = true) (hb : ∀ c ∈ b.head?, isDelimiter c = true)
    (x : List Char) : redactAbsolutePaths W (a ++ x ++ b) =
      redactAbsolutePaths W a ++ redactAbsolutePaths W x ++ redactAbsolutePaths W b := by
  have hright : redactAbsolutePaths W (x ++ b) =
      redactAbsolutePaths W x ++ redactAbsolutePaths W b := by
    cases b with
    | nil => rw [redactAbsolutePaths_nil, List.append_nil, List.append_nil]
    | cons d b =>
        have hd : isDelimiter d = true := hb d rfl
        have hstart := redactAbsolutePaths_delimiter W hd [] b
        rw [List.nil_append, redactAbsolutePaths_nil, List.nil_append] at hstart
        rw [redactAbsolutePaths_delimiter W hd, hstart]
  rcases List.eq_nil_or_concat a with rfl | ⟨a, d, rfl⟩
  · rw [redactAbsolutePaths_nil, List.nil_append, List.nil_append, hright]
  · have hd : isDelimiter d = true := ha d (by simp)
    have hend := redactAbsolutePaths_delimiter W hd a []
    rw [redactAbsolutePaths_nil] at hend
    rw [List.concat_eq_append, hend]
    have hwhole := redactAbsolutePaths_delimiter W hd a (x ++ b)
    rw [hright] at hwhole
    simpa using hwhole

end Delimiters

/-! ## §4  Delimited POSIX paths -/

/-- A dot or a slash. -/
def isStop (c : Char) : Bool := among ['.', '/'] c

/-- Every stop is directly followed by another character. -/
def stopsFollowed : List Char → Bool
  | [] => true
  | c :: l => (!isStop c || l.head?.any fun d => !isStop d) && stopsFollowed l

/-- A character of a segment. -/
def segmentChar (W : WordChars) (c : Char) : Bool := W.isWord c || among ['.', '-'] c

/-- An absolute path of two or more segments, with any number of slashes between two of them
and possibly one behind the last. -/
structure LocalPath (W : WordChars) where
  first : List Char
  /-- each with the number of slashes before it beyond the first -/
  rest : List (ℕ × List Char)
  trailing : Bool
  several : rest ≠ []
  nonempty : ∀ s ∈ first :: rest.map Prod.snd, s ≠ []
  chars : ∀ s ∈ first :: rest.map Prod.snd, ∀ c ∈ s, segmentChar W c = true

def LocalPath.text {W : WordChars} (p : LocalPath W) : List Char :=
  '/' :: p.first ++ p.rest.flatMap (fun e => List.replicate (e.1 + 1) '/' ++ e.2) ++
    if p.trailing then ['/'] else []

section Paths

variable {W : WordChars}

theorem nameChar_of_not_stop {c : Char} (h : segmentChar W c = true ∨ c = '/')
    (hc : isStop c = false) : nameChar W c = true := by
  simp [isStop, segmentChar, nameChar, among] at *
  grind

theorem not_stop_of_nameChar {c : Char} (h : nameChar W c = true) : isStop c = false := by
  rw [Bool.eq_false_iff]
  intro hc
  have hcases : c = '.' ∨ c = '/' := by simpa [isStop, among] using hc
  rcases hcases with rfl | rfl
  · simp [nameChar, among, W.ascii '.' (by decide)] at h
  · simp [nameChar, among, W.ascii '/' (by decide)] at h

theorem LocalPath.mem_text (p : LocalPath W) {c : Char} (h : c ∈ p.text) :
    segmentChar W c = true ∨ c = '/' := by
  have hchars := p.chars
  rw [List.forall_mem_cons] at hchars
  simp only [LocalPath.text, List.mem_append, List.mem_cons, List.mem_flatMap] at h
  rcases h with (h | h) | h
  · rcases h with rfl | h
    · exact Or.inr rfl
    · exact Or.inl (hchars.1 c h)
  · obtain ⟨e, he, hc⟩ := h
    rcases hc with hc | hc
    · exact Or.inr (List.eq_of_mem_replicate hc)
    · exact Or.inl (hchars.2 e.2 (List.mem_map_of_mem he) c hc)
  · right
    split at h
    · simpa using h
    · cases h

/-! ### What the pattern takes -/

theorem stopsFollowed_append {l m : List Char} (hl : stopsFollowed l = true)
    (hm : stopsFollowed m = true) : stopsFollowed (l ++ m) = true := by
  induction l with
  | nil => exact hm
  | cons c l ih =>
      simp only [stopsFollowed, List.cons_append, Bool.and_eq_true, Bool.or_eq_true] at hl ⊢
      refine ⟨?_, ih hl.2⟩
      rcases hl.1 with h | h
      · exact Or.inl h
      · right
        cases l with
        | nil => cases h
        | cons d l => exact h

theorem stopsFollowed_of_star {r : Regex Char} (hr : ∀ l, Matches r l → stopsFollowed l = true)
    {m : List Char} (h : Matches (.star r) m) : stopsFollowed m = true :=
  Matches.of_star (Q := fun l => stopsFollowed l = true) rfl (fun _ _ => stopsFollowed_append)
    hr h

/-- A text that goes on with a character of a name. -/
def Begun (l : List Char) : Prop :=
  stopsFollowed l = true ∧ l.head?.any (fun d => !isStop d) = true

theorem Begun.append {l m : List Char} (hl : Begun l) (hm : stopsFollowed m = true) :
    Begun (l ++ m) := by
  refine ⟨stopsFollowed_append hl.1 hm, ?_⟩
  cases l with
  | nil => cases hl.2
  | cons c l => exact hl.2

theorem Begun.cons {l : List Char} (h : Begun l) (c : Char) : stopsFollowed (c :: l) = true := by
  rw [stopsFollowed, h.1, h.2, Bool.or_true]
  rfl

theorem begun_singleton {c : Char} (h : nameChar W c = true) : Begun [c] := by
  have hc := not_stop_of_nameChar h
  constructor
  · rw [stopsFollowed, hc]
    rfl
  · simp [hc]

theorem begun_of_matches_name {m : List Char} (h : Matches (name W) m) : Begun m := by
  cases h with
  | seq hfirst hrest =>
      cases hfirst with
      | symbol hc =>
          refine (begun_singleton hc).append ?_
          refine stopsFollowed_of_star ?_ hrest
          intro l hl
          cases hl with
          | symbol hd => exact (begun_singleton hd).1

theorem begun_of_matches_segment {m : List Char} (h : Matches (segment W) m) : Begun m := by
  cases h with
  | seq hfirst hrest =>
      refine (begun_of_matches_name hfirst).append ?_
      refine stopsFollowed_of_star ?_ hrest
      intro l hl
      cases hl with
      | seq hdot hname =>
          cases hdot with
          | symbol _ => exact (begun_of_matches_name hname).cons _

/-- A match of the POSIX pattern has a character behind each of its stops. -/
theorem stopsFollowed_of_matches {m : List Char} (h : Matches (posixAbsolutePath W) m) :
    stopsFollowed m = true := by
  have hstep : ∀ l, Matches (.seq (char '/') (segment W)) l → stopsFollowed l = true := by
    intro l hl
    cases hl with
    | seq hslash hsegment =>
        cases hslash with
        | symbol _ => exact (begun_of_matches_segment hsegment).cons _
  cases h with
  | seq hbehind h =>
      cases hbehind
      cases h with
      | seq hsteps hahead =>
          cases hahead
          cases hsteps with
          | seq hfirst hrest =>
              rw [List.nil_append, List.append_nil]
              refine stopsFollowed_append (hstep _ hfirst) ?_
              exact stopsFollowed_of_star hstep hrest

/-! ### What the pattern tries first -/

/-- A text of names and stops with a character behind each stop. -/
def Readable (W : WordChars) (l : List Char) : Prop :=
  stopsFollowed l = true ∧ ∀ c ∈ l, nameChar W c = true ∨ isStop c = true

theorem Readable.tail {c : Char} {l : List Char} (h : Readable W (c :: l)) : Readable W l := by
  refine ⟨?_, fun d hd => h.2 d (List.mem_cons_of_mem c hd)⟩
  have hstops := h.1
  rw [stopsFollowed, Bool.and_eq_true] at hstops
  exact hstops.2

/-- A name follows a stop. -/
theorem Readable.of_stop {c : Char} {l : List Char} (h : Readable W (c :: l))
    (hc : isStop c = true) : ∃ d l', l = d :: l' ∧ nameChar W d = true := by
  have hstops := h.1
  rw [stopsFollowed, hc, Bool.and_eq_true] at hstops
  cases l with
  | nil => cases hstops.1
  | cons d l =>
      have hd : isStop d = false := by simpa using hstops.1
      refine ⟨d, l, rfl, ?_⟩
      rcases h.2 d (by simp) with hname | hstop
      · exact hname
      · rw [hd] at hstop
        cases hstop

/-- At the end of the text or at a stop. -/
def AtStop (W : WordChars) (n : ℕ) (pl : Place Char) : Prop :=
  Readable W pl.rest ∧ pl.rest.length < n ∧ ∀ c ∈ pl.rest.head?, isStop c = true

theorem ends_name {c : Char} {l : List Char} (h : Readable W (c :: l)) (hc : nameChar W c = true)
    (before : Option Char) : Ends (name W) ⟨before, c :: l⟩ (AtStop W (l.length + 1)) := by
  let I : Place Char → Prop := fun pl => Readable W pl.rest ∧ pl.rest.length < l.length + 1
  have hfirst : I ⟨some c, l⟩ := ⟨h.tail, Nat.lt_succ_self _⟩
  refine Ends.seq (Ends.symbol hc hfirst) fun q hq => Ends.star (I := I) ?_ hq
  intro pl hpl
  obtain ⟨before, rest⟩ := pl
  cases rest with
  | nil => exact Or.inl ⟨rfl, hpl.1, hpl.2, by simp⟩
  | cons d rest =>
      have hlen : rest.length + 1 < l.length + 1 := hpl.2
      rcases Bool.eq_false_or_eq_true (nameChar W d) with hd | hd
      · right
        refine Ends.symbol hd ⟨⟨hpl.1.tail, ?_⟩, Nat.lt_succ_self _⟩
        show rest.length < l.length + 1
        omega
      · left
        refine ⟨run_symbol_eq_nil (by simpa using hd), hpl.1, hpl.2, ?_⟩
        have hstop := (hpl.1.2 d (by simp)).resolve_left (by simp [hd])
        simpa using hstop

/-- Behind a stop that is asked for, the match goes on at a name. -/
theorem ends_stop {c : Char} {l : List Char} (h : Readable W (c :: l)) (hc : isStop c = true)
    {r : Regex Char} {before : Option Char} {Q : Place Char → Prop}
    (hr : ∀ d l', l = d :: l' → nameChar W d = true → Ends r ⟨some c, d :: l'⟩ Q) :
    Ends (.seq (char c) r) ⟨before, c :: l⟩ Q := by
  obtain ⟨d, l', rfl, hd⟩ := h.of_stop hc
  have hchar : Ends (char c) ⟨before, c :: d :: l'⟩ fun q => q = ⟨some c, d :: l'⟩ :=
    Ends.symbol (by simp [among]) rfl
  refine hchar.seq ?_
  rintro _ rfl
  exact hr d l' rfl hd

/-- At the end of the text or at a slash. -/
def AtSlash (W : WordChars) (n : ℕ) (pl : Place Char) : Prop :=
  Readable W pl.rest ∧ pl.rest.length < n ∧ ∀ c ∈ pl.rest.head?, c = '/'

theorem ends_dotted {n : ℕ} {pl : Place Char} (h : AtStop W n pl) :
    Ends (.star (.seq (char '.') (name W))) pl (AtSlash W n) := by
  refine Ends.star (I := AtStop W n) ?_ h
  intro pl hpl
  obtain ⟨before, rest⟩ := pl
  obtain ⟨hread, hlen, hstop⟩ := hpl
  cases rest with
  | nil => exact Or.inl ⟨rfl, hread, hlen, by simp⟩
  | cons c rest =>
      have hc : isStop c = true := hstop c rfl
      have hcases : c = '.' ∨ c = '/' := by simpa [isStop, among] using hc
      rcases hcases with rfl | rfl
      · right
        refine ends_stop hread hc ?_
        rintro d l rfl hd
        refine (ends_name hread.tail hd _).mono ?_
        rintro q ⟨hread', hlen', hstop'⟩
        simp only [List.length_cons] at hlen ⊢
        exact ⟨⟨hread', by omega, hstop'⟩, by omega⟩
      · left
        refine ⟨run_seq_eq_nil (run_symbol_eq_nil ?_), hread, hlen, by simp⟩
        simp [among]

theorem ends_step {l : List Char} (h : Readable W ('/' :: l)) (before : Option Char) :
    Ends (.seq (char '/') (segment W)) ⟨before, '/' :: l⟩ (AtSlash W (l.length + 1)) := by
  refine ends_stop h (by decide) ?_
  rintro d l rfl hd
  refine ((ends_name h.tail hd _).seq fun q hq => ends_dotted hq).mono ?_
  rintro q ⟨hread, hlen, hslash⟩
  exact ⟨hread, Nat.lt_succ_of_lt hlen, hslash⟩

/-- The first match of a readable path is all of it. -/
theorem ends_posixAbsolutePath {l : List Char} (h : Readable W ('/' :: l)) :
    Ends (posixAbsolutePath W) ⟨none, '/' :: l⟩ fun q => q.rest = [] := by
  have hbehind : Ends (.notBehind fun c => W.isWord c || among ['\\', '/', '.'] c)
      ⟨none, '/' :: l⟩ fun q => q = ⟨none, '/' :: l⟩ := Ends.notBehind rfl
  refine hbehind.seq ?_
  rintro _ rfl
  have hsteps : Ends (Regex.plus (.seq (char '/') (segment W))) ⟨none, '/' :: l⟩
      fun q => q.rest = [] := by
    refine (ends_step h none).seq fun q hq => ?_
    refine Ends.star (I := AtSlash W (l.length + 1)) ?_ hq
    intro pl hpl
    obtain ⟨before, rest⟩ := pl
    obtain ⟨hread, hlen, hslash⟩ := hpl
    cases rest with
    | nil => exact Or.inl ⟨rfl, rfl⟩
    | cons c rest =>
        right
        have hc : c = '/' := hslash c rfl
        subst hc
        refine (ends_step hread before).mono ?_
        rintro q ⟨hread', hlen', hslash'⟩
        simp only [List.length_cons] at hlen ⊢
        exact ⟨⟨hread', by omega, hslash'⟩, hlen'⟩
  exact hsteps.seq fun q hq => Ends.notAhead hq hq

/-! ### The other two patterns need a colon or a backslash -/

theorem needs_fileUrlPath (W : WordChars) : Needs (· = ':') (fileUrlPath W) := by
  refine .seqRight (.seqRight (.seqRight (.seqRight (.seqLeft (.symbol ?_)))))
  intro c hc
  simpa [among] using hc

theorem needs_windowsAbsolutePath (W : WordChars) :
    Needs (fun c => c = ':' ∨ c = '\\') (windowsAbsolutePath W) := by
  refine .seqRight (.seqLeft (.alt (.seqRight (.seqLeft (.symbol ?_))) (.seqLeft (.symbol ?_))))
  · intro c hc
    exact Or.inl (by simpa [among] using hc)
  · intro c hc
    exact Or.inr (by simpa [among] using hc)

theorem LocalPath.redact_eq (p : LocalPath W) :
    redactAbsolutePaths W p.text = sub (posixAbsolutePath W) placeholder p.text := by
  have hnone : ∀ c ∈ p.text, ¬ (c = ':' ∨ c = '\\') := by
    rintro c hc (rfl | rfl)
    · have h := p.mem_text hc
      simp [segmentChar, among, W.ascii ':' (by decide)] at h
    · have h := p.mem_text hc
      simp [segmentChar, among, W.ascii '\\' (by decide)] at h
  simp only [redactAbsolutePaths]
  rw [(needs_fileUrlPath W).sub_eq _ fun c hc h => hnone c hc (Or.inl h),
    (needs_windowsAbsolutePath W).sub_eq _ hnone]

theorem LocalPath.text_eq_cons (p : LocalPath W) : ∃ l, p.text = '/' :: l := ⟨_, rfl⟩

/-- A path on its own is replaced as a whole exactly when its stops are followed. -/
theorem LocalPath.redact_eq_placeholder_iff (p : LocalPath W) :
    redactAbsolutePaths W p.text = placeholder ↔ stopsFollowed p.text = true := by
  rw [p.redact_eq]
  obtain ⟨l, hl⟩ := p.text_eq_cons
  constructor
  · intro h
    rw [hl] at h ⊢
    obtain ⟨q, hq, hend⟩ := exists_match_of_sub (by decide) h
    obtain ⟨m, hm, hmatch⟩ := matches_of_run _ hq
    rw [hend, List.append_nil] at hm
    exact (show '/' :: l = m from hm) ▸ stopsFollowed_of_matches hmatch
  · intro h
    have hread : Readable W p.text := by
      refine ⟨h, fun c hc => ?_⟩
      rcases Bool.eq_false_or_eq_true (isStop c) with hstop | hstop
      · exact Or.inr hstop
      · exact Or.inl (nameChar_of_not_stop (p.mem_text hc) hstop)
    rw [hl] at hread ⊢
    exact sub_whole (List.cons_ne_nil _ _) _ (ends_posixAbsolutePath hread)

end Paths

/-! ## §5  Which paths do not survive -/

/-- A delimited path is masked, all of it and nothing else, exactly when each of its dots and
slashes is directly followed by another character of a name: with a hidden segment, a segment
that ends in a dot or has two in a row, a repeated or a trailing slash, a part of the path
stays. -/
theorem path_masked_iff (W : WordChars) (p : LocalPath W) (a b : List Char)
    (ha : ∀ c ∈ a.getLast?, isDelimiter c = true) (hb : ∀ c ∈ b.head?, isDelimiter c = true) :
    redactAbsolutePaths W (a ++ p.text ++ b) =
        redactAbsolutePaths W a ++ placeholder ++ redactAbsolutePaths W b ↔
      stopsFollowed p.text = true := by
  rw [redactAbsolutePaths_delimited W ha hb, ← p.redact_eq_placeholder_iff]
  simp

/-- `/home/u/app.log` -/
def logPath : LocalPath .asciiOnly where
  first := ['h', 'o', 'm', 'e']
  rest := [(0, ['u']), (0, ['a', 'p', 'p', '.', 'l', 'o', 'g'])]
  trailing := false
  several := by decide
  nonempty := by decide
  chars := by
    simp only [List.map_cons, List.map_nil, List.forall_mem_cons, List.not_mem_nil, false_imp_iff,
      implies_true, and_true]
    decide

theorem quoted_path_masked :
    redactAbsolutePaths .asciiOnly (['\''] ++ logPath.text ++ ['\'']) =
        redactAbsolutePaths .asciiOnly ['\''] ++ placeholder ++
          redactAbsolutePaths .asciiOnly ['\''] ↔
      stopsFollowed logPath.text = true :=
  path_masked_iff .asciiOnly logPath ['\''] ['\''] (by rintro c ⟨⟩; rfl) (by rintro c ⟨⟩; rfl)

/-- `/home/.ssh/id` -/
def hiddenPath : LocalPath .asciiOnly where
  first := ['h', 'o', 'm', 'e']
  rest := [(0, ['.', 's', 's', 'h']), (0, ['i', 'd'])]
  trailing := false
  several := by decide
  nonempty := by decide
  chars := by
    simp only [List.map_cons, List.map_nil, List.forall_mem_cons, List.not_mem_nil, false_imp_iff,
      implies_true, and_true]
    decide

/-- A path with a hidden segment leaves the process as it is. -/
theorem hidden_path_survives :
    redactAbsolutePaths .asciiOnly ([] ++ hiddenPath.text ++ []) = hiddenPath.text ∧
      ¬ redactAbsolutePaths .asciiOnly ([] ++ hiddenPath.text ++ []) =
        redactAbsolutePaths .asciiOnly [] ++ placeholder ++ redactAbsolutePaths .asciiOnly [] := by
  decide +kernel

end OpencodeA2a.Redact
