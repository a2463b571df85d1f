import OpencodeA2a.Library.Leftovers
import OpencodeA2a.Redact.AbsolutePaths
import Mathlib.Algebra.Order.Group.Nat
import Mathlib.Algebra.Order.BigOperators.Group.List

/-!
# Masking twice

The masker leaves the stretches of a text that no pattern takes. A second pass sees each of
them on its own, with a placeholder before it instead of a path.
-/

namespace OpencodeA2a.Redact

open OpencodeA2a.Pattern

variable (W : WordChars)

/-! ## §1  The stretches that are left -/

/-- The stretches of a text between the paths that are masked. -/
def leftovers (text : List Char) : List (List Char) :=
  (cut (fileUrlPath W) text).flatMap fun g =>
    (cut (windowsAbsolutePath W) g).flatMap (cut (posixAbsolutePath W))

theorem isNeutral_open : isNeutral W '<' = true := by
  simp [isNeutral, nameChar, W.ascii '<' (by decide), among, marks]

theorem isNeutral_close : isNeutral W '>' = true := by
  simp [isNeutral, nameChar, W.ascii '>' (by decide), among, marks]

theorem needs_posixAbsolutePath : Needs (· = '/') (posixAbsolutePath W) := by
  refine .seqRight (.seqLeft (.seqLeft (.seqLeft (.symbol ?_))))
  intro c hc
  simpa [among] using hc

theorem consuming_fileUrlPath : Consuming (fileUrlPath W) := (needs_fileUrlPath W).consuming

theorem consuming_windowsAbsolutePath : Consuming (windowsAbsolutePath W) :=
  (needs_windowsAbsolutePath W).consuming

theorem consuming_posixAbsolutePath : Consuming (posixAbsolutePath W) :=
  (needs_posixAbsolutePath W).consuming

/-- What the placeholder has between its brackets. -/
def placeholderName : List Char := "redacted-path".toList

theorem not_mem_placeholderName {c : Char} (hc : c ∈ placeholderName) :
    ¬ (c = ':' ∨ c = '\\') ∧ c ≠ '/' := by
  have hnone : placeholderName.any (among [':', '\\', '/']) = false := by decide
  have h := List.any_eq_false.mp hnone c hc
  simpa [among, and_assoc] using h

variable {W}

/-- A pass over a text with placeholders in it is one over its stretches. -/
theorem sub_stretches {r : Regex Char} {P : Char → Prop} (h : Needs P r)
    (hopen : Avoids '<' r) (hclose : Avoids '>' r) (hP : ∀ c ∈ placeholderName, ¬ P c)
    (gs : List (List Char)) : sub r placeholder (placeholder.intercalate gs) =
      placeholder.intercalate (gs.map (sub r placeholder)) :=
  sub_intercalate hopen hclose (h.sub_eq _ hP) gs

theorem sub_fileUrlPath_stretches (gs : List (List Char)) :
    sub (fileUrlPath W) placeholder (placeholder.intercalate gs) =
      placeholder.intercalate (gs.map (sub (fileUrlPath W) placeholder)) := by
  apply sub_stretches (needs_fileUrlPath W) (avoids_fileUrlPath (isNeutral_open W))
    (avoids_fileUrlPath (isNeutral_close W))
  intro c hc heq
  exact (not_mem_placeholderName hc).1 (Or.inl heq)

theorem sub_windowsAbsolutePath_stretches (gs : List (List Char)) :
    sub (windowsAbsolutePath W) placeholder (placeholder.intercalate gs) =
      placeholder.intercalate (gs.map (sub (windowsAbsolutePath W) placeholder)) := by
  apply sub_stretches (needs_windowsAbsolutePath W)
    (avoids_windowsAbsolutePath (isNeutral_open W)) (avoids_windowsAbsolutePath (isNeutral_close W))
  intro c hc
  exact (not_mem_placeholderName hc).1

theorem sub_posixAbsolutePath_stretches (gs : List (List Char)) :
    sub (posixAbsolutePath W) placeholder (placeholder.intercalate gs) =
      placeholder.intercalate (gs.map (sub (posixAbsolutePath W) placeholder)) := by
  apply sub_stretches (needs_posixAbsolutePath W)
    (avoids_posixAbsolutePath (isNeutral_open W)) (avoids_posixAbsolutePath (isNeutral_close W))
  intro c hc
  exact (not_mem_placeholderName hc).2

theorem intercalate_cut {r : Regex Char} (hr : Consuming r) (gs : List (List Char)) :
    placeholder.intercalate (gs.map (sub r placeholder)) =
      placeholder.intercalate (gs.flatMap (cut r)) := by
  have hcut : ∀ g, cut r g ≠ [] := fun g => List.cons_ne_nil _ _
  rw [intercalate_flatMap placeholder hcut]
  congr 1
  apply List.map_congr_left
  intro g _
  exact sub_eq_cut hr _ g

/-- The masked text is made of the stretches that are left. -/
theorem redactAbsolutePaths_eq (text : List Char) :
    redactAbsolutePaths W text = placeholder.intercalate (leftovers W text) := by
  simp only [redactAbsolutePaths, leftovers]
  rw [sub_eq_cut (consuming_fileUrlPath W), sub_windowsAbsolutePath_stretches,
    intercalate_cut (consuming_windowsAbsolutePath W), sub_posixAbsolutePath_stretches,
    intercalate_cut (consuming_posixAbsolutePath W), List.flatMap_assoc]

/-- A second pass masks in each stretch on its own. -/
theorem redactAbsolutePaths_intercalate (gs : List (List Char)) :
    redactAbsolutePaths W (placeholder.intercalate gs) =
      placeholder.intercalate (gs.map (redactAbsolutePaths W)) := by
  simp only [redactAbsolutePaths]
  rw [sub_fileUrlPath_stretches, sub_windowsAbsolutePath_stretches,
    sub_posixAbsolutePath_stretches, List.map_map, List.map_map]
  rfl

/-! ## §2  Texts that the masker leaves as they are -/

/-- Each path that is masked adds a bracket. -/
theorem count_redact (text : List Char) : ∃ n, (redactAbsolutePaths W text).count '<' =
    text.count '<' + n ∧ (n = 0 → Unmatched (fileUrlPath W) text ∧
      Unmatched (windowsAbsolutePath W) text ∧ Unmatched (posixAbsolutePath W) text) := by
  have hone : placeholder.count '<' = 1 := by decide
  have hfile := count_sub (consuming_fileUrlPath W) (avoids_fileUrlPath (isNeutral_open W))
    placeholder text
  have hwindows := count_sub (consuming_windowsAbsolutePath W)
    (avoids_windowsAbsolutePath (isNeutral_open W)) placeholder (sub (fileUrlPath W) placeholder text)
  have hposix := count_sub (consuming_posixAbsolutePath W)
    (avoids_posixAbsolutePath (isNeutral_open W)) placeholder
    (sub (windowsAbsolutePath W) placeholder (sub (fileUrlPath W) placeholder text))
  rw [hone, Nat.mul_one] at hfile hwindows hposix
  rw [hwindows, hfile, Nat.add_assoc, Nat.add_assoc] at hposix
  refine ⟨_, hposix, fun hn => ?_⟩
  have hn₁ : (cut (fileUrlPath W) text).tail = [] := List.eq_nil_of_length_eq_zero (by omega)
  have hunmatched₁ := (tail_cut_eq_nil_iff (consuming_fileUrlPath W) text).mp hn₁
  rw [hunmatched₁.sub_eq (consuming_fileUrlPath W)] at hn
  have hn₂ : (cut (windowsAbsolutePath W) text).tail = [] :=
    List.eq_nil_of_length_eq_zero (by omega)
  have hunmatched₂ := (tail_cut_eq_nil_iff (consuming_windowsAbsolutePath W) text).mp hn₂
  rw [hunmatched₂.sub_eq (consuming_windowsAbsolutePath W)] at hn
  have hn₃ : (cut (posixAbsolutePath W) text).tail = [] := List.eq_nil_of_length_eq_zero (by omega)
  exact ⟨hunmatched₁, hunmatched₂, (tail_cut_eq_nil_iff (consuming_posixAbsolutePath W) text).mp hn₃⟩

/-- A text is left as it is exactly when none of the three patterns matches in it. -/
theorem redact_eq_self_iff (text : List Char) : redactAbsolutePaths W text = text ↔
    Unmatched (fileUrlPath W) text ∧ Unmatched (windowsAbsolutePath W) text ∧
      Unmatched (posixAbsolutePath W) text := by
  constructor
  · intro h
    obtain ⟨n, hcount, hnone⟩ := count_redact (W := W) text
    rw [h] at hcount
    exact hnone (by omega)
  · rintro ⟨hfile, hwindows, hposix⟩
    simp only [redactAbsolutePaths]
    rw [hfile.sub_eq (consuming_fileUrlPath W), hwindows.sub_eq (consuming_windowsAbsolutePath W),
      hposix.sub_eq (consuming_posixAbsolutePath W)]

theorem count_redact_le (text : List Char) :
    text.count '<' ≤ (redactAbsolutePaths W text).count '<' := by
  obtain ⟨n, hcount, -⟩ := count_redact (W := W) text
  omega

theorem redact_eq_self_of_count {text : List Char}
    (h : text.count '<' = (redactAbsolutePaths W text).count '<') :
    redactAbsolutePaths W text = text := by
  obtain ⟨n, hcount, hnone⟩ := count_redact (W := W) text
  exact (redact_eq_self_iff text).mpr (hnone (by omega))

/-- Texts made of stretches, each with at least as many brackets, agree only if each two
stretches have as many. -/
theorem count_of_intercalate_eq {f : List Char → List Char}
    (hf : ∀ g, g.count '<' ≤ (f g).count '<') {gs : List (List Char)}
    (h : placeholder.intercalate (gs.map f) = placeholder.intercalate gs) :
    ∀ g ∈ gs, g.count '<' = (f g).count '<' := by
  have hcount : ∀ gs : List (List Char), (placeholder.intercalate gs).count '<' =
      (gs.map (List.count '<')).sum + (gs.length - 1) := by
    intro gs
    induction gs with
    | nil => rfl
    | cons g gs ih =>
        by_cases hnil : gs = []
        · subst hnil
          simp only [List.intercalate_singleton, List.map_cons, List.map_nil, List.sum_cons,
            List.sum_nil, List.length_cons, List.length_nil]
          omega
        · have hone : placeholder.count '<' = 1 := by decide
          have hpos := List.length_pos_iff.mpr hnil
          rw [List.intercalate_cons_of_ne_nil hnil, List.count_append, List.count_append, ih, hone,
            List.map_cons, List.sum_cons, List.length_cons]
          omega
  have hsum := congrArg (List.count '<') h
  rw [hcount, hcount, List.length_map, List.map_map] at hsum
  replace hsum : (gs.map (List.count '<' ∘ f)).sum = (gs.map (List.count '<')).sum := by omega
  clear h
  induction gs with
  | nil => exact nofun
  | cons g gs ih =>
      simp only [List.map_cons, List.sum_cons, Function.comp_apply] at hsum
      have hle : (gs.map (List.count '<')).sum ≤ (gs.map (List.count '<' ∘ f)).sum :=
        List.sum_le_sum fun g _ => hf g
      have hg := hf g
      intro g' hg'
      rcases List.mem_cons.mp hg' with rfl | hg'
      · omega
      · exact ih (by omega) g' hg'

/-- A second pass changes nothing exactly when it changes none of the stretches. -/
theorem redact_redact_iff (text : List Char) :
    redactAbsolutePaths W (redactAbsolutePaths W text) = redactAbsolutePaths W text ↔
      ∀ u ∈ leftovers W text, redactAbsolutePaths W u = u := by
  rw [redactAbsolutePaths_eq text, redactAbsolutePaths_intercalate]
  constructor
  · intro h u hu
    exact redact_eq_self_of_count (count_of_intercalate_eq count_redact_le h u hu)
  · intro h
    congr 1
    exact (List.map_congr_left h).trans (List.map_id _)

/-! ## §3  What a second pass finds in a stretch -/

section Parts

variable (W)

/-- `\\\\[\w@+%-]+[\\/]` -/
def uncRoot : Regex Char := .seq (char '\\') (.seq (char '\\') (.seq (name W) separator))

/-- A UNC path of one segment. -/
def uncPath : Regex Char := .seq (uncRoot W) (segment W)

/-- The Windows pattern behind its look-around. -/
def windowsPath : Regex Char :=
  .seq (.alt (.seq letter (.seq (char ':') separator)) (uncRoot W))
    (.seq (segment W) (.star (.seq separator (segment W))))

/-- The POSIX pattern between its look-arounds. -/
def posixPath : Regex Char := Regex.plus (.seq (char '/') (segment W))

end Parts

theorem mem_run_windows {pl q : Place Char} : q ∈ run (windowsAbsolutePath W) pl ↔
    pl.before.any (fun c => W.isWord c || among ['\\', '/'] c) = false ∧
      q ∈ run (windowsPath W) pl :=
  mem_run_notBehind_seq

theorem mem_run_posix {pl q : Place Char} : q ∈ run (posixAbsolutePath W) pl ↔
    pl.before.any (fun c => W.isWord c || among ['\\', '/', '.'] c) = false ∧
      q ∈ run (posixPath W) pl ∧
        q.rest.head?.any (fun c => W.isWord c || among [':', '/', '{'] c) = false :=
  mem_run_notBehind_seq.trans (and_congr_right' mem_run_seq_notAhead)

theorem plain_fileUrlPath : Plain (fileUrlPath W) := by
  simp [fileUrlPath, Regex.literal, Plain, segment, name, Regex.plus, char, separator,
    letterIgnoreCase]

theorem plain_windowsPath : Plain (windowsPath W) := by
  simp [windowsPath, uncRoot, Plain, segment, name, Regex.plus, char, separator, letter]

theorem plain_posixPath : Plain (posixPath W) := by
  simp [posixPath, Plain, segment, name, Regex.plus, char]

theorem consuming_step (p : Char → Bool) (r : Regex Char) : Consuming (.seq (.symbol p) r) :=
  (Needs.seqLeft (.symbol fun _ h => h) : Needs (p · = true) (.seq (.symbol p) r)).consuming

/-! ### Greedy ends -/

theorem greedy_name : Greedy (nameChar W) (name W) := (greedy_star_symbol (nameChar W)).seq

theorem greedy_segment : Greedy (nameChar W) (segment W) :=
  Greedy.seq_star greedy_name greedy_name.seq (consuming_step _ _)

/-- A masked Windows path is not followed by a character of a name. -/
theorem greedy_windowsAbsolutePath : Greedy (nameChar W) (windowsAbsolutePath W) :=
  (Greedy.seq_star greedy_segment greedy_segment.seq (consuming_step _ _)).seq.seq

/-- A masked POSIX path is not followed by a word character or a slash. -/
theorem ahead_posixAbsolutePath {pl q : Place Char}
    (h : (run (posixAbsolutePath W) pl).head? = some q) :
    q.rest.head?.any (fun c => W.isWord c || among [':', '/', '{'] c) = false :=
  (mem_run_posix.mp (List.mem_of_head? h)).2.2

/-! ### The three patterns in a stretch -/

/-- A stretch that is left in `text`: a stretch `u` of a stretch `w` of a stretch `g`. -/
structure Leftover (W : WordChars) (text u : List Char) where
  g : List Char
  w : List Char
  x₁ : List Char
  y₁ : List Char
  x₂ : List Char
  y₂ : List Char
  x₃ : List Char
  y₃ : List Char
  file : Gap (fileUrlPath W) ⟨none, text⟩ x₁ g y₁
  windows : Gap (windowsAbsolutePath W) ⟨none, g⟩ x₂ w y₂
  posix : Gap (posixAbsolutePath W) ⟨none, w⟩ x₃ u y₃

theorem leftover_of_mem {text u : List Char} (h : u ∈ leftovers W text) :
    Nonempty (Leftover W text u) := by
  obtain ⟨g, hg, h⟩ := List.mem_flatMap.mp h
  obtain ⟨w, hw, hu⟩ := List.mem_flatMap.mp h
  obtain ⟨x₁, y₁, hfile⟩ := gap_of_mem_cut (consuming_fileUrlPath W) hg
  obtain ⟨x₂, y₂, hwindows⟩ := gap_of_mem_cut (consuming_windowsAbsolutePath W) hw
  obtain ⟨x₃, y₃, hposix⟩ := gap_of_mem_cut (consuming_posixAbsolutePath W) hu
  exact ⟨⟨g, w, x₁, y₁, x₂, y₂, x₃, y₃, hfile, hwindows, hposix⟩⟩

variable {text u : List Char}

theorem Leftover.unmatched_file (h : Leftover W text u) : Unmatched (fileUrlPath W) u := by
  rintro a b rfl hb
  have hg : h.g = (h.x₂ ++ (h.x₃ ++ a)) ++ (b ++ (h.y₃ ++ h.y₂)) := by
    have hg : h.g = h.x₂ ++ h.w ++ h.y₂ := h.windows.split
    have hw : h.w = h.x₃ ++ (a ++ b) ++ h.y₃ := h.posix.split
    rw [hg, hw]
    simp only [List.append_assoc]
  have hnil := h.file.unmatched _ _ hg (List.append_ne_nil_of_left_ne_nil hb _)
  rw [List.append_assoc] at hnil
  exact plain_fileUrlPath.run_eq_nil rfl hnil

/-- A second pass finds a POSIX path in no stretch: what stands around a stretch would have
kept the first pass from it as well. -/
theorem Leftover.unmatched_posix (h : Leftover W text u) : Unmatched (posixAbsolutePath W) u := by
  rintro a b rfl hb
  rw [List.eq_nil_iff_forall_not_mem]
  intro q hq
  obtain ⟨hbehind, hsteps, hahead⟩ := mem_run_posix.mp hq
  have hnil := h.posix.unmatched a b rfl hb
  -- before `b`
  have hbefore : (Place.lastOf ⟨none, h.w⟩ (h.x₃ ++ a)).any
      (fun c => W.isWord c || among ['\\', '/', '.'] c) = false := by
    unfold Place.lastOf
    rw [List.getLast?_append, Option.or_none]
    cases ha : a.getLast? with
    | some c =>
        rw [ha] at hbehind
        exact hbehind
    | none =>
        have ha' : a = [] := List.getLast?_eq_none_iff.mp ha
        rcases h.posix.start with hx | ⟨pl', hstart⟩
        · rw [hx]
          rfl
        · -- a path does not begin right behind a path
          exfalso
          have hnext := ahead_posixAbsolutePath hstart
          obtain ⟨q₁, hq₁, -⟩ := List.mem_flatMap.mp hsteps
          obtain ⟨c, l, hb'⟩ := List.exists_cons_of_ne_nil hb
          subst ha' hb'
          have hc : c = '/' := by
            obtain ⟨q₂, hq₂, -⟩ := List.mem_flatMap.mp hq₁
            simp only [char, run] at hq₂
            split at hq₂
            · rename_i hc
              simpa [among] using hc
            · cases hq₂
          subst hc
          simp [among] at hnext
  -- behind the match
  have hextend : (Place.mk (Place.lastOf ⟨none, h.w⟩ (h.x₃ ++ a)) (b ++ h.y₃)).rest =
      b ++ h.y₃ := rfl
  obtain ⟨q', hq', hrest⟩ := plain_posixPath.run_extend hsteps hextend
  have hno : ∀ q ∈ run (posixPath W) ⟨Place.lastOf ⟨none, h.w⟩ (h.x₃ ++ a), b ++ h.y₃⟩,
      q.rest.head?.any (fun c => W.isWord c || among [':', '/', '{'] c) ≠ false := by
    intro q hq hnext
    have hmem := mem_run_posix.mpr ⟨hbefore, hq, hnext⟩
    rw [hnil] at hmem
    cases hmem
  cases hend : q.rest with
  | cons c l =>
      apply hno q' hq'
      rw [hrest, hend]
      rw [hend] at hahead
      exact hahead
  | nil =>
      rw [hend, List.nil_append] at hrest
      rcases h.posix.stop with hy | hstop
      · apply hno q' hq'
        rw [hrest, hy]
        rfl
      · -- the next path would have been taken together with this one
        obtain ⟨q₂, hq₂⟩ := List.exists_mem_of_ne_nil _ hstop
        obtain ⟨-, hsteps₂, hahead₂⟩ := mem_run_posix.mp hq₂
        have hsame : q'.rest = h.y₃ ++ [] := by rw [hrest, List.append_nil]
        obtain ⟨q₃, hq₃, hrest₃⟩ := plain_posixPath.run_extend hsteps₂ hsame
        rw [List.append_nil] at hrest₃
        apply hno q₃ (run_plus_trans (consuming_step _ _) hq' hq₃)
        rw [hrest₃]
        exact hahead₂

theorem run_windowsPath_eq_nil {pl : Place Char} (hletter : ∀ c ∈ pl.rest.head?, c.isAlpha = false)
    (hunc : run (uncPath W) pl = []) : run (windowsPath W) pl = [] := by
  have hdrive : run (.seq letter (.seq (char ':') separator)) pl = [] :=
    run_seq_eq_nil (run_symbol_eq_nil hletter)
  show (run (.seq letter (.seq (char ':') separator)) pl ++ run (uncRoot W) pl).flatMap _ = []
  rw [hdrive, List.nil_append, List.flatMap_eq_nil_iff]
  intro q hq
  exact run_seq_eq_nil (List.flatMap_eq_nil_iff.mp hunc q hq)

theorem run_uncPath_eq_nil {pl : Place Char} (h : run (windowsPath W) pl = []) :
    run (uncPath W) pl = [] := by
  refine List.flatMap_eq_nil_iff.mpr fun q hq => ?_
  have hnil := List.flatMap_eq_nil_iff.mp h q (List.mem_append_right _ hq)
  rw [List.eq_nil_iff_forall_not_mem]
  intro q' hq'
  have hmore := List.flatMap_eq_nil_iff.mp hnil q' hq'
  exact run_star_ne_nil _ q' hmore

/-- What follows a masked path does not begin with a letter. -/
theorem Leftover.head_not_alpha (h : Leftover W text u)
    (hbehind : (Place.lastOf ⟨none, h.g⟩ (h.x₂ ++ h.x₃)).any
      (fun c => W.isWord c || among ['\\', '/'] c) ≠ false) :
    ∀ c ∈ u.head?, c.isAlpha = false := by
  obtain ⟨g, w, x₁, y₁, x₂, y₂, x₃, y₃, hfile, hwindows, hposix⟩ := h
  intro c hc
  obtain ⟨l, rfl⟩ := List.head?_eq_some_iff.mp hc
  suffices hword : W.isWord c = false by
    rw [Bool.eq_false_iff]
    intro halpha
    rw [isWord_of_isAlpha W halpha] at hword
    cases hword
  rcases hposix.start with rfl | ⟨pl', hstart⟩
  · rcases hwindows.start with rfl | ⟨pl', hstart⟩
    · exact absurd rfl hbehind
    · have hnext := greedy_windowsAbsolutePath pl' _ hstart
      have hw : w = c :: l ++ y₃ := hposix.split
      subst hw
      exact (Bool.or_eq_false_iff.mp hnext).1
  · have hnext := ahead_posixAbsolutePath hstart
    exact (Bool.or_eq_false_iff.mp hnext).1

/-- A second pass finds a Windows path in a stretch exactly if the stretch begins with a UNC
path. -/
theorem Leftover.unmatched_windows_iff (h : Leftover W text u) :
    Unmatched (windowsAbsolutePath W) u ↔ run (uncPath W) ⟨none, u⟩ = [] := by
  constructor
  · intro hnone
    rw [List.eq_nil_iff_forall_not_mem]
    intro q hq
    have hu : u ≠ [] := by
      rintro rfl
      cases hq
    have hnil := hnone [] u rfl hu
    have hwindows : run (windowsPath W) ⟨none, u⟩ = [] := by
      rw [List.eq_nil_iff_forall_not_mem]
      intro q' hq'
      have hmem : q' ∈ run (windowsAbsolutePath W) ⟨none, u⟩ := mem_run_windows.mpr ⟨rfl, hq'⟩
      rw [show run (windowsAbsolutePath W) ⟨none, u⟩ = [] from hnil] at hmem
      cases hmem
    rw [run_uncPath_eq_nil hwindows] at hq
    cases hq
  · rintro hunc a b rfl hb
    rw [List.eq_nil_iff_forall_not_mem]
    intro q hq
    obtain ⟨hbehind, hpath⟩ := mem_run_windows.mp hq
    -- the same place in the stretch of the first pass
    have hw : h.w = (h.x₃ ++ a) ++ (b ++ h.y₃) := by
      have hw : h.w = h.x₃ ++ (a ++ b) ++ h.y₃ := h.posix.split
      rw [hw]
      simp only [List.append_assoc]
    have hnil := h.windows.unmatched _ _ hw (List.append_ne_nil_of_left_ne_nil hb _)
    have hextend : (Place.mk (Place.lastOf ⟨none, h.g⟩ (h.x₂ ++ (h.x₃ ++ a)))
        (b ++ h.y₃ ++ h.y₂)).rest = b ++ (h.y₃ ++ h.y₂) := List.append_assoc _ _ _
    obtain ⟨q', hq', -⟩ := plain_windowsPath.run_extend hpath hextend
    have hbefore : (Place.lastOf ⟨none, h.g⟩ (h.x₂ ++ (h.x₃ ++ a))).any
        (fun c => W.isWord c || among ['\\', '/'] c) ≠ false := by
      intro hbefore
      have hmem := mem_run_windows.mpr ⟨hbefore, hq'⟩
      rw [hnil] at hmem
      cases hmem
    cases ha : a.getLast? with
    | some c =>
        apply hbefore
        unfold Place.lastOf
        rw [List.getLast?_append, List.getLast?_append, ha]
        rw [ha] at hbehind
        exact hbehind
    | none =>
        have ha' : a = [] := List.getLast?_eq_none_iff.mp ha
        subst ha'
        rw [List.append_nil] at hbefore
        have hnone : run (windowsPath W) ⟨none, b⟩ = [] :=
          run_windowsPath_eq_nil (h.head_not_alpha hbefore) hunc
        rw [show run (windowsPath W) ⟨([] : List Char).getLast?, b⟩ = [] from hnone] at hpath
        cases hpath

/-! ## §4  When masking twice is masking once -/

/-- Masking a masked text changes nothing exactly when none of the stretches that the first
pass leaves begins with a UNC path: the path before it kept it from being seen, and the
placeholder does not. -/
theorem redact_idempotent_iff (W : WordChars) (text : List Char) :
    redactAbsolutePaths W (redactAbsolutePaths W text) = redactAbsolutePaths W text ↔
      ∀ u ∈ leftovers W text, run (uncPath W) ⟨none, u⟩ = [] := by
  rw [redact_redact_iff]
  apply forall_congr'
  intro u
  apply imp_congr_right
  intro hu
  obtain ⟨h⟩ := leftover_of_mem hu
  rw [redact_eq_self_iff, ← h.unmatched_windows_iff]
  constructor
  · exact fun hnone => hnone.2.1
  · exact fun hwindows => ⟨h.unmatched_file, hwindows, h.unmatched_posix⟩

/-- `/a\\\\b\\c` -/
def adjacentPaths : List Char := ['/', 'a', '\\', '\\', 'b', '\\', 'c']

/-- The second pass masks what the first has left. -/
theorem redact_not_idempotent :
    redactAbsolutePaths .asciiOnly adjacentPaths = placeholder ++ ['\\', '\\', 'b', '\\', 'c'] ∧
      redactAbsolutePaths .asciiOnly (redactAbsolutePaths .asciiOnly adjacentPaths) =
        placeholder ++ placeholder ∧
      ¬ redactAbsolutePaths .asciiOnly (redactAbsolutePaths .asciiOnly adjacentPaths) =
        redactAbsolutePaths .asciiOnly adjacentPaths := by
  decide +kernel

end OpencodeA2a.Redact
