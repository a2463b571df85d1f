import OpencodeA2a.Stream.ServerSentEvents

/-!
# Decoding undoes sending

An event whose text holds no line break is decoded as it was sent. `splitlines` knows
line breaks that JSON leaves in its strings (U+0085, U+2028, U+2029): at these the line
of an event is cut within a string, and what comes after is read from the wrong side of
its quotes.
-/

namespace OpencodeA2a.Stream

open Quoted (read)

/-! ## §1  Events without line breaks -/

/-- A line break that JSON leaves in its strings as it is. -/
def isSeparator (c : Char) : Bool :=
  c.toNat == 0x85 || c.toNat == 0x2028 || c.toNat == 0x2029

theorem isLineBreak_of_isSeparator {c : Char} (h : isSeparator c = true) :
    isLineBreak c = true := by
  simp only [isSeparator, isLineBreak, Bool.or_eq_true, beq_iff_eq] at h ⊢
  omega

variable {json : JsonReader} {t : Text} {m : Mapping}

/-- Characters that no escape takes. -/
theorem not_escaped {p : Char → Bool} (hp : ∀ d ∈ "\"\\/bfnrtu".toList, p d = false) {c : Char}
    (h : p c = true) : jsonGrammar.escaped c = false := by
  rw [Bool.eq_false_iff]
  intro hmem
  have hfalse := hp c (List.contains_iff_mem.mp hmem)
  rw [h] at hfalse
  cases hfalse

theorem neutral_of_isSpace {c : Char} (h : isSpace c = true) :
    Quoted.Neutral jsonGrammar c where
  quote := by
    rintro rfl
    cases h
  escape := by
    rintro rfl
    cases h
  escaped := not_escaped (List.all_iff_forall_prop.mp (by decide)) h

/-- Leading and trailing blanks of a text. -/
theorem Text.eq_append_strip (t : Text) :
    ∃ b b' : Text, b.Blank ∧ b'.Blank ∧ t = b ++ t.strip ++ b' := by
  by_cases h : t.Blank
  · refine ⟨t, [], h, Strip.blank_nil, ?_⟩
    rw [Text.blank_iff.mp h]
    simp
  · obtain ⟨b, hb, heq⟩ := Strip.eq_append_strip t h
    refine ⟨b, t.rtakeWhile isSpace, hb, Strip.blank_rtakeWhile, ?_⟩
    rw [List.append_assoc]
    exact heq

/-- Stripping changes no reading. -/
theorem read_strip {g : Quoted.Grammar Char} (hg : ∀ c, isSpace c = true → Quoted.Neutral g c)
    {n n' : Quoted.Mode} (h : read g n t = some n') : read g n t.strip = some n' := by
  obtain ⟨b, b', hb, hb', heq⟩ := t.eq_append_strip
  rw [heq] at h
  exact Quoted.read_trimmed (fun c hc => hg c (hb c hc)) (fun c hc => hg c (hb' c hc)) h

/-- A line break in the text of an event is a separator. -/
theorem Written.isSeparator (h : Written json t m) {c : Char} (hc : c ∈ t)
    (hbreak : isLineBreak c = true) : isSeparator c = true := by
  obtain ⟨hlf, hcr⟩ := h.oneLine c hc
  by_contra hnot
  -- a control character stands nowhere in a JSON text
  have hcontrol : c.toNat < 32 ∧ c.toNat ≠ 9 ∧ c.toNat ≠ 10 ∧ c.toNat ≠ 13 := by
    have hn10 : c.toNat ≠ 10 := fun heq => hlf (Char.toNat_inj.mp heq)
    have hn13 : c.toNat ≠ 13 := fun heq => hcr (Char.toNat_inj.mp heq)
    simp only [Stream.isSeparator, Bool.or_eq_true, beq_iff_eq] at hnot
    simp only [isLineBreak, Bool.or_eq_true, Bool.and_eq_true, decide_eq_true_eq,
      beq_iff_eq] at hbreak
    omega
  have hquote : c ≠ '"' := by
    rintro rfl
    exact absurd hcontrol.1 (by decide)
  have hescape : c ≠ '\\' := by
    rintro rfl
    exact absurd hcontrol.1 (by decide)
  have hinner : jsonGrammar.inner c = false := decide_eq_false (by omega)
  have houter : jsonGrammar.outer c = false := by
    simp only [jsonGrammar, Bool.and_eq_false_iff, Bool.or_eq_false_iff, decide_eq_false_iff_not,
      beq_eq_false_iff_ne]
    omega
  have hescaped : jsonGrammar.escaped c = false := by
    refine @not_escaped (fun d => decide (d.toNat < 32))
      (List.all_iff_forall_prop.mp (by decide)) c ?_
    exact decide_eq_true hcontrol.1
  exact Quoted.not_mem_of_read hquote houter hescape hinner hescaped (json.lexical h.loads) hc

theorem KeepAlive.noBreak (k : KeepAlive) : ∀ c ∈ k.line, isLineBreak c = false := by
  cases k with
  | comment text oneLine =>
      intro c hc
      rcases List.mem_cons.mp hc with rfl | hc
      · rfl
      · exact oneLine c hc
  | blank =>
      intro c hc
      cases hc

/-- No separator stands in a string of the value. -/
def SeparatorFree (v : Json) : Prop := ∀ c, isSeparator c = true → ¬ v.Holds c

/-- Data lines that were read from the wrong side of a quote. -/
structure Flipped (dataLines : List Text) (n : Quoted.Mode) : Prop where
  noBreak : ∀ x ∈ dataLines, ∀ c ∈ x, isLineBreak c = false
  inside : read jsonGrammar.loose .inside (joinLines dataLines) = some n

/-- Data lines that begin with an event cut within a string. -/
def Broken (dataLines : List Text) : Prop :=
  ∃ a b, joinLines dataLines = '{' :: a ++ b ∧ (b = [] ∨ ∃ b', b = '\n' :: b') ∧
    read jsonGrammar .outside ('{' :: a) = some .inside

theorem joinLines_append (dataLines : List Text) (x : Text) :
    joinLines (dataLines ++ [x]) =
      if dataLines = [] then x else joinLines dataLines ++ '\n' :: x := by
  induction dataLines with
  | nil => rfl
  | cons y dataLines ih =>
      cases dataLines with
      | nil => rfl
      | cons z dataLines =>
          show y ++ '\n' :: joinLines (z :: dataLines ++ [x]) = _
          rw [ih, if_neg (List.cons_ne_nil _ _), if_neg (List.cons_ne_nil _ _)]
          simp [joinLines]

theorem mem_joinLines {dataLines : List Text} {c : Char} (h : c ∈ joinLines dataLines) :
    c = '\n' ∨ ∃ x ∈ dataLines, c ∈ x := by
  induction dataLines with
  | nil => cases h
  | cons y dataLines ih =>
      cases dataLines with
      | nil => exact .inr ⟨y, List.mem_cons_self, h⟩
      | cons z dataLines =>
          rcases List.mem_append.mp h with h | h
          · exact .inr ⟨y, List.mem_cons_self, h⟩
          · rcases List.mem_cons.mp h with h | h
            · exact .inl h
            · rcases ih h with h | ⟨x, hx, h⟩
              · exact .inl h
              · exact .inr ⟨x, List.mem_cons_of_mem _ hx, h⟩

/-- What is read from the wrong side has no separator in its strings. -/
theorem Flipped.harmless {dataLines : List Text} {n : Quoted.Mode} (h : Flipped dataLines n)
    {v : Json} (hloads : json.loads (payloadOf dataLines) = some v) : SeparatorFree v := by
  have hinside := read_strip (fun c hc => (neutral_of_isSpace hc).loose) h.inside
  obtain ⟨-, hescape⟩ := Quoted.opposite_readings .left (json.lexical hloads) hinside
  intro c hc hholds
  have hmem := json.verbatim hloads hescape hholds
  have hjoined : c ∈ joinLines dataLines := by
    obtain ⟨b, b', -, -, heq⟩ := (joinLines dataLines).eq_append_strip
    rw [heq]
    exact List.mem_append_left _ (List.mem_append_right _ hmem)
  rcases mem_joinLines hjoined with rfl | ⟨x, hx, hcx⟩
  · cases hc
  · have hbreak := h.noBreak x hx c hcx
    rw [isLineBreak_of_isSeparator hc] at hbreak
    cases hbreak

theorem Flipped.append {dataLines : List Text} (h : Flipped dataLines .inside) {x : Text}
    {n : Quoted.Mode} (hx : ∀ c ∈ x, isLineBreak c = false)
    (hread : read jsonGrammar.loose .inside x = some n) : Flipped (dataLines ++ [x]) n where
  noBreak := by
    intro y hy
    rcases List.mem_append.mp hy with hy | hy
    · exact h.noBreak y hy
    · rw [List.mem_singleton.mp hy]
      exact hx
  inside := by
    rw [joinLines_append]
    split
    · exact hread
    · rw [Quoted.read_append, h.inside]
      exact hread

theorem Broken.append {dataLines : List Text} (h : Broken dataLines) (x : Text) :
    Broken (dataLines ++ [x]) := by
  obtain ⟨a, b, hjoin, hb, hread⟩ := h
  have hne : dataLines ≠ [] := by
    rintro rfl
    cases hjoin
  refine ⟨a, b ++ '\n' :: x, ?_, ?_, hread⟩
  · rw [joinLines_append, if_neg hne, hjoin, List.append_assoc]
  · right
    rcases hb with rfl | ⟨b', rfl⟩
    · exact ⟨x, rfl⟩
    · exact ⟨b' ++ '\n' :: x, rfl⟩

/-- A string that is not closed ends every reading, at the latest at the line's end. -/
theorem Broken.silent {dataLines : List Text} (h : Broken dataLines) :
    json.loads (payloadOf dataLines) = none := by
  obtain ⟨a, b, hjoin, hb, hread⟩ := h
  cases hloads : json.loads (payloadOf dataLines) with
  | none => rfl
  | some v =>
      exfalso
      have hlex := json.lexical hloads
      unfold payloadOf at hlex
      rw [hjoin] at hlex
      by_cases hblank : Text.Blank b
      · have hstrip : Text.strip ('{' :: a ++ b) = Text.strip ('{' :: a) :=
          Strip.strip_append_blank hblank
        have hinside := read_strip (fun c hc => neutral_of_isSpace hc) hread
        rw [hstrip, hinside] at hlex
        cases hlex
      · have hstrip : Text.strip ('{' :: a ++ b) = '{' :: a ++ b.rdropWhile isSpace := by
          have hfirst : ('{' :: a ++ b).dropWhile isSpace = '{' :: a ++ b := rfl
          unfold Text.strip Strip.strip
          rw [hfirst]
          exact Strip.rdropWhile_append hblank
        rw [hstrip] at hlex
        obtain ⟨n, hstart, hrest⟩ := Quoted.read_append_eq_some hlex
        rw [hread] at hstart
        cases hstart
        rcases hb with rfl | ⟨b', rfl⟩
        · exact hblank Strip.blank_nil
        · cases hdrop : List.rdropWhile isSpace ('\n' :: b') with
          | nil => exact hblank (List.rdropWhile_eq_nil_iff.mp hdrop)
          | cons d rest =>
              have hfirst : d = '\n' := by
                have hsplit : List.rdropWhile isSpace ('\n' :: b') ++
                    List.rtakeWhile isSpace ('\n' :: b') = '\n' :: b' :=
                  List.rdropWhile_append_rtakeWhile
                rw [hdrop] at hsplit
                exact (List.cons.inj hsplit).1
              rw [hdrop, hfirst] at hrest
              cases hrest

end OpencodeA2a.Stream
