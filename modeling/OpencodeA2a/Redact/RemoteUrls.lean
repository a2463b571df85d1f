import Mathlib.Data.List.Chain
import Mathlib.Data.List.TakeWhile
import OpencodeA2a.Redact.Idempotence

/-!
# Remote URLs

The masker has no pattern for URLs. It leaves their slashes alone since a path does not begin
behind a word character, a dot or a slash; but behind the bracket of an IPv6 address, a hyphen
or a tilde it does. Which URLs are left as they are is decided segment by segment.
-/

namespace OpencodeA2a.Redact

open OpencodeA2a.Pattern

/-! ## §1  URLs -/

/-- The unreserved characters of RFC 3986. -/
def isUnreserved (c : Char) : Bool := c.isAlphanum || among ['-', '.', '_', '~'] c

/-- A character of a host name. -/
def isHostChar (c : Char) : Bool := c.isAlphanum || among ['-', '.', '_'] c

/-- A character of an IPv6 address. -/
def isAddressChar (c : Char) : Bool := c.isAlphanum || among [':', '.'] c

inductive Host where
  | name (n : List Char) (nonempty : n ≠ []) (chars : ∀ c ∈ n, isHostChar c = true)
  | literal (address : List Char) (chars : ∀ c ∈ address, isAddressChar c = true)

def Host.text : Host → List Char
  | .name n _ _ => n
  | .literal address _ => '[' :: address ++ [']']

/-- The segments of a path, each behind its slash. -/
def pathText (segments : List (List Char)) : List Char := segments.flatMap ('/' :: ·)

/-- An `http` or `https` URL; its path has any segments, also empty ones, or none. -/
structure RemoteUrl where
  scheme : List Char
  host : Host
  port : Option (List Char)
  segments : List (List Char)
  http : scheme.map Char.toLower = "http".toList ∨ scheme.map Char.toLower = "https".toList
  digits : ∀ p ∈ port, p ≠ [] ∧ ∀ c ∈ p, c.isDigit = true
  unreserved : ∀ s ∈ segments, ∀ c ∈ s, isUnreserved c = true

namespace RemoteUrl

variable (u : RemoteUrl)

def authority : List Char := u.host.text ++ (u.port.map (':' :: ·)).getD []

def text : List Char := u.scheme ++ "://".toList ++ u.authority ++ pathText u.segments

end RemoteUrl

/-! ## §2  Where a path begins -/

/-- No segment of a path begins like this. -/
def hidden : List Char → Bool
  | [] => true
  | c :: _ => among ['.', '~'] c

/-- Word characters, behind the first. -/
def bare : List Char → Bool
  | [] => false
  | _ :: s => s.all fun c => c.isAlphanum || c == '_'

/-- No path begins at the first of these segments: bare ones lead up to a hidden one. -/
def blocked : List (List Char) → Bool
  | [] => false
  | s :: ss => hidden s || bare s && blocked ss

/-- Wherever the slash of a segment does not look like one inside a URL, no path begins there.
The segments stand behind `piece`. -/
def clear : List Char → List (List Char) → Bool
  | _, [] => true
  | piece, s :: ss =>
      (!piece.getLast?.any (among [']', '-', '~']) || blocked (s :: ss)) && clear s ss

section Paths

variable {W : WordChars}

theorem not_among_of_isAlphanum {c : Char} (h : c.isAlphanum = true) {cs : List Char}
    (hcs : cs.all (fun d => !d.isAlphanum) = true) : among cs c = false := by
  rw [Bool.eq_false_iff]
  intro hmem
  have hnot := List.all_eq_true.mp hcs c (List.contains_iff_mem.mp hmem)
  rw [h] at hnot
  cases hnot

/-- An unreserved character is a word character, or one of the others. -/
theorem isUnreserved_cases {c : Char} (h : isUnreserved c = true) :
    c.isAlphanum = true ∨ c = '-' ∨ c = '.' ∨ c = '_' ∨ c = '~' := by
  unfold isUnreserved at h
  rw [Bool.or_eq_true] at h
  refine h.imp_right fun h => ?_
  simpa [among] using h

theorem isWord_of_bare (W : WordChars) {c : Char} (h : (c.isAlphanum || c == '_') = true) :
    W.isWord c = true := by
  rw [Bool.or_eq_true, beq_iff_eq] at h
  rcases h with h | rfl
  · exact isWord_of_isAlphanum W h
  · exact W.ascii '_' (by decide)

/-- Behind an unreserved character or a bracket a path begins only if it is one of three. -/
theorem behind_eq (W : WordChars) {c : Char} (h : isUnreserved c = true ∨ c = ']') :
    (W.isWord c || among ['\\', '/', '.'] c) = !among [']', '-', '~'] c := by
  rcases h with h | rfl
  · rcases isUnreserved_cases h with h | rfl | rfl | rfl | rfl
    · have hnot : among [']', '-', '~'] c = false := not_among_of_isAlphanum h (by decide)
      rw [isWord_of_isAlphanum W h, hnot]
      rfl
    all_goals
      rw [W.ascii _ (by decide)]
      rfl
  · rw [W.ascii _ (by decide)]
    rfl

/-- The unreserved characters behind which a match may end are those of no word. -/
theorem ahead_of_not_bare (W : WordChars) {c : Char} (h : isUnreserved c = true)
    (hc : (c.isAlphanum || c == '_') = false) :
    (W.isWord c || among [':', '/', '{'] c) = false := by
  rcases isUnreserved_cases h with hc' | rfl | rfl | rfl | rfl
  · rw [hc'] at hc
    cases hc
  · rw [W.ascii _ (by decide)]
    rfl
  · rw [W.ascii _ (by decide)]
    rfl
  · cases hc
  · rw [W.ascii _ (by decide)]
    rfl

/-- The first character of a segment that is not hidden. -/
theorem nameChar_of_not_hidden (W : WordChars) {c : Char} {s : List Char}
    (hc : isUnreserved c = true) (h : hidden (c :: s) = false) : nameChar W c = true := by
  unfold hidden at h
  unfold nameChar
  rcases isUnreserved_cases hc with hc | rfl | rfl | rfl | rfl
  · rw [isWord_of_isAlphanum W hc]
    rfl
  · rw [show among ['@', '+', '%', '-'] '-' = true from rfl, Bool.or_true]
  · cases h
  · rw [W.ascii _ (by decide)]
    rfl
  · cases h

theorem hidden_of_nameChar {c : Char} {s : List Char} (h : nameChar W c = true) :
    hidden (c :: s) = false := by
  rw [Bool.eq_false_iff]
  intro hhidden
  have hcases : c = '.' ∨ c = '~' := by simpa [hidden, among] using hhidden
  rcases hcases with rfl | rfl
  · simp [nameChar, among, W.ascii '.' (by decide)] at h
  · simp [nameChar, among, W.ascii '~' (by decide)] at h

/-! ## §3  The matches in a path -/

/-- A match of the POSIX pattern begins at the place, whatever stands before it. -/
def Taken (W : WordChars) (pl : Place Char) : Prop :=
  ∃ q ∈ run (posixPath W) pl,
    q.rest.head?.any (fun c => W.isWord c || among [':', '/', '{'] c) = false

theorem avoids_slash_segment (W : WordChars) : Avoids '/' (segment W) := by
  have hname : nameChar W '/' = false := by
    unfold nameChar
    rw [W.ascii '/' (by decide)]
    rfl
  exact ⟨⟨hname, hname⟩, rfl, hname, hname⟩

theorem head_of_matches_segment {m : List Char} (h : Matches (segment W) m) :
    ∃ c m', m = c :: m' ∧ nameChar W c = true := by
  cases h with
  | seq hname _ =>
      cases hname with
      | seq hfirst _ =>
          cases hfirst with
          | symbol hc => exact ⟨_, _, rfl, hc⟩

theorem pathText_cons (s : List Char) (ss : List (List Char)) :
    pathText (s :: ss) = '/' :: s ++ pathText ss :=
  List.flatMap_cons

/-- The text of a path begins with a slash. -/
theorem head_pathText (ss : List (List Char)) : ∀ c ∈ (pathText ss).head?, c = '/' := by
  cases ss with
  | nil => exact fun _ hc => by cases hc
  | cons s ss =>
      intro c hc
      cases hc
      rfl

/-- One step of a path takes a beginning of its segment. -/
theorem run_step_cases {before : Option Char} {s : List Char} {ss : List (List Char)}
    {q : Place Char}
    (h : q ∈ run (.seq (char '/') (segment W)) ⟨before, pathText (s :: ss)⟩) :
    ∃ c m m', s = c :: (m ++ m') ∧ nameChar W c = true ∧ q.rest = m' ++ pathText ss := by
  obtain ⟨q₁, hq₁, hq⟩ := List.mem_flatMap.mp h
  rw [show q₁ = ⟨some '/', s ++ pathText ss⟩ from List.mem_singleton.mp hq₁] at hq
  obtain ⟨m, ⟨hrest, -⟩, hmatch⟩ := behind_of_run _ hq
  obtain ⟨c, m, rfl, hc⟩ := head_of_matches_segment hmatch
  have hslash := (avoids_slash_segment W).not_mem hmatch
  change s ++ pathText ss = (c :: m) ++ q.rest at hrest
  rcases List.append_eq_append_iff.mp hrest with ⟨a, ha, htext⟩ | ⟨m', hs, hq'⟩
  · -- a match that takes the whole segment ends there
    cases a with
    | nil =>
        rw [List.append_nil] at ha
        exact ⟨c, m, [], by rw [List.append_nil, ha], hc, htext.symm⟩
    | cons d a =>
        have hd : d = '/' := head_pathText ss d (by rw [htext]; rfl)
        rw [ha, hd] at hslash
        exact absurd (List.mem_append_right _ List.mem_cons_self) hslash
  · exact ⟨c, m, m', hs, hc, hq'⟩

theorem not_taken_of_head {pl : Place Char} (h : ∀ c ∈ pl.rest.head?, c ≠ '/') : ¬ Taken W pl := by
  rintro ⟨q, hq, -⟩
  have hnil : run (char '/') pl = [] := by
    refine run_symbol_eq_nil ?_
    intro c hc
    have hne := h c hc
    simpa [among] using hne
  rw [posixPath, Regex.plus, run_seq_eq_nil (run_seq_eq_nil hnil)] at hq
  cases hq

/-- A match does not begin at a hidden segment, and past a bare one it goes on. -/
theorem Taken.step {before : Option Char} {s : List Char} {ss : List (List Char)}
    (h : Taken W ⟨before, pathText (s :: ss)⟩) : hidden s = false ∧
      (bare s = true → ss = [] ∨ ∃ before', Taken W ⟨before', pathText ss⟩) := by
  obtain ⟨q, hq, hahead⟩ := h
  obtain ⟨q', hq', hcase⟩ := (mem_run_plus (consuming_step _ _)).mp hq
  obtain ⟨c, m, m', rfl, hc, hrest⟩ := run_step_cases hq'
  refine ⟨hidden_of_nameChar hc, ?_⟩
  intro hbare
  cases m' with
  | nil =>
      change q'.rest = pathText ss at hrest
      rcases hcase with rfl | hmore
      · left
        cases ss with
        | nil => rfl
        | cons s ss =>
            -- a slash follows
            rw [hrest, pathText_cons] at hahead
            change (W.isWord '/' || true) = false at hahead
            rw [Bool.or_true] at hahead
            cases hahead
      · right
        refine ⟨q'.before, q, ?_, hahead⟩
        rw [← hrest]
        exact hmore
  | cons d m' =>
      -- a word character follows
      have hd := List.all_eq_true.mp hbare d (List.mem_append_right m List.mem_cons_self)
      rcases hcase with rfl | hmore
      · rw [hrest] at hahead
        change (W.isWord d || _) = false at hahead
        rw [isWord_of_bare W hd, Bool.true_or] at hahead
        cases hahead
      · have htaken : Taken W q' := ⟨q, hmore, hahead⟩
        refine absurd htaken (not_taken_of_head ?_)
        rw [hrest]
        rintro _ ⟨⟩ rfl
        cases hd

/-- From a segment that is not hidden, a match ends in it, or goes on past a bare one. -/
theorem taken_cons {s : List Char} {ss : List (List Char)}
    (hs : ∀ c ∈ s, isUnreserved c = true) (hhidden : hidden s = false)
    (h : bare s = true → ss = [] ∨ ∀ before', Taken W ⟨before', pathText ss⟩)
    (before : Option Char) : Taken W ⟨before, pathText (s :: ss)⟩ := by
  cases s with
  | nil => cases hhidden
  | cons c s =>
      rw [List.forall_mem_cons] at hs
      let p : Char → Bool := fun c => c.isAlphanum || c == '_'
      let m := c :: s.takeWhile p
      let q : Place Char := ⟨m.getLast?.or (some '/'), s.dropWhile p ++ pathText ss⟩
      have hname : ∀ d ∈ m, nameChar W d = true := by
        intro d hd
        rcases List.mem_cons.mp hd with rfl | hd
        · exact nameChar_of_not_hidden W hs.1 hhidden
        · have hbare : p d = true := List.mem_takeWhile_imp hd
          have hword := isWord_of_bare W hbare
          unfold nameChar
          rw [hword, Bool.true_or]
      have hstep : q ∈ run (.seq (char '/') (segment W)) ⟨before, pathText ((c :: s) :: ss)⟩ := by
        have hall : (c :: s) ++ pathText ss = m ++ (s.dropWhile p ++ pathText ss) := by
          rw [← List.append_assoc]
          exact congrArg (c :: · ++ pathText ss) List.takeWhile_append_dropWhile.symm
        refine List.mem_flatMap.mpr ⟨⟨some '/', (c :: s) ++ pathText ss⟩, List.mem_singleton_self _,
          List.mem_flatMap.mpr ⟨q, ?_, mem_run_star.mpr (.inl rfl)⟩⟩
        rw [hall]
        exact mem_run_plus_symbol (List.cons_ne_nil _ _) hname _ _
      cases hrest : s.dropWhile p with
      | cons d m' =>
          -- the match ends in the segment
          have hd : p d = false := by
            have hnot := List.head?_dropWhile_not p s
            rw [hrest] at hnot
            exact hnot
          have hmem : d ∈ s := (List.dropWhile_sublist p).subset (hrest ▸ List.mem_cons_self)
          refine ⟨q, (mem_run_plus (consuming_step _ _)).mpr ⟨q, hstep, .inl rfl⟩, ?_⟩
          show (s.dropWhile p ++ pathText ss).head?.any _ = false
          rw [hrest]
          exact ahead_of_not_bare W (hs.2 d hmem) hd
      | nil =>
          have hq : q = ⟨q.before, pathText ss⟩ := by
            show (⟨_, s.dropWhile p ++ pathText ss⟩ : Place Char) = _
            rw [hrest]
            rfl
          rcases h (List.all_eq_true.mpr (List.dropWhile_eq_nil_iff.mp hrest)) with rfl | hmore
          · refine ⟨q, (mem_run_plus (consuming_step _ _)).mpr ⟨q, hstep, .inl rfl⟩, ?_⟩
            rw [hq]
            rfl
          · obtain ⟨q', hq', hahead⟩ := hmore q.before
            rw [← hq] at hq'
            exact ⟨q', (mem_run_plus (consuming_step _ _)).mpr ⟨q, hstep, .inr hq'⟩, hahead⟩

/-- A match begins at a path that is not blocked. -/
theorem taken_iff {ss : List (List Char)} (hss : ∀ s ∈ ss, ∀ c ∈ s, isUnreserved c = true)
    (hne : ss ≠ []) (before : Option Char) :
    Taken W ⟨before, pathText ss⟩ ↔ blocked ss = false := by
  induction ss generalizing before with
  | nil => exact absurd rfl hne
  | cons s ss ih =>
      rw [List.forall_mem_cons] at hss
      unfold blocked
      rw [Bool.or_eq_false_iff, Bool.and_eq_false_iff]
      constructor
      · intro h
        obtain ⟨hhidden, hmore⟩ := h.step
        refine ⟨hhidden, ?_⟩
        by_cases hbare : bare s = true
        · right
          rcases hmore hbare with rfl | ⟨before', htaken⟩
          · rfl
          · by_cases hnil : ss = []
            · rw [hnil]
              rfl
            · exact (ih hss.2 hnil before').mp htaken
        · exact .inl (Bool.not_eq_true _ ▸ hbare)
      · rintro ⟨hhidden, hmore⟩
        refine taken_cons hss.1 hhidden ?_ before
        intro hbare
        have hblocked := hmore.resolve_left (by rw [hbare]; decide)
        by_cases hnil : ss = []
        · exact .inl hnil
        · exact .inr fun before' => (ih hss.2 hnil before').mpr hblocked

/-! ## §4  The pattern over a URL -/

/-- No match begins with a character other than a slash. -/
theorem run_posix_of_ne {before : Option Char} {c : Char} {l : List Char} (hc : c ≠ '/') :
    run (posixAbsolutePath W) ⟨before, c :: l⟩ = [] := by
  rw [List.eq_nil_iff_forall_not_mem]
  intro q hq
  obtain ⟨-, hpath, hahead⟩ := mem_run_posix.mp hq
  have htaken : Taken W ⟨before, c :: l⟩ := ⟨q, hpath, hahead⟩
  refine not_taken_of_head ?_ htaken
  rintro _ ⟨⟩
  exact hc

theorem run_posix_eq_nil_iff {pl : Place Char} : run (posixAbsolutePath W) pl = [] ↔
    (pl.before.any fun c => W.isWord c || among ['\\', '/', '.'] c) = true ∨ ¬ Taken W pl := by
  rw [List.eq_nil_iff_forall_not_mem, or_iff_not_imp_left, Bool.not_eq_true]
  constructor
  · rintro h hbefore ⟨q, hq, hahead⟩
    exact h q (mem_run_posix.mpr ⟨hbefore, hq, hahead⟩)
  · intro h q hq
    obtain ⟨hbefore, hpath, hahead⟩ := mem_run_posix.mp hq
    exact h hbefore ⟨q, hpath, hahead⟩

/-- The path behind a piece of the URL is left as it is where it is clear. -/
theorem unmatchedAt_pathText {ss : List (List Char)}
    (hss : ∀ s ∈ ss, ∀ c ∈ s, isUnreserved c = true) {piece : List Char}
    (hpiece : ∀ c ∈ piece.getLast?, isUnreserved c = true ∨ c = ']') :
    UnmatchedAt (posixAbsolutePath W) ⟨piece.getLast?.or (some '/'), pathText ss⟩ ↔
      clear piece ss = true := by
  induction ss generalizing piece with
  | nil => exact iff_of_true (unmatchedAt_nil _ _) rfl
  | cons s ss ih =>
      have hall := hss
      rw [List.forall_mem_cons] at hss
      have hslash : ∀ c ∈ s, c ≠ '/' := by
        rintro c hc rfl
        cases hss.1 '/' hc
      have hlast : ∀ c ∈ s.getLast?, isUnreserved c = true ∨ c = ']' :=
        fun c hc => .inl (hss.1 c (List.mem_of_mem_getLast? hc))
      rw [pathText_cons, List.cons_append, unmatchedAt_cons,
        unmatchedAt_append fun c hc _ _ => run_posix_of_ne (hslash c hc), ih hss.2 hlast,
        run_posix_eq_nil_iff, clear, Bool.and_eq_true, Bool.or_eq_true]
      refine and_congr_left fun _ => or_congr ?_ ?_
      · cases hp : piece.getLast? with
        | none =>
            -- a slash stands before it
            exact iff_of_true (Bool.or_true _) rfl
        | some c =>
            show (W.isWord c || among ['\\', '/', '.'] c) = true ↔ _
            rw [behind_eq W (hpiece c hp)]
            rfl
      · rw [← List.cons_append, ← pathText_cons, taken_iff hall (List.cons_ne_nil _ _),
          Bool.not_eq_false]

/-! ### What a URL is made of -/

theorem isAlpha_of_toLower {c : Char} (h : c.toLower.isAlpha = true) : c.isAlpha = true := by
  unfold Char.toLower at h
  split at h
  · rename_i hrange
    have hupper : c.isUpper = true := decide_eq_true hrange
    show (c.isUpper || c.isLower) = true
    rw [hupper, Bool.true_or]
  · exact h

variable (u : RemoteUrl)

theorem RemoteUrl.isAlpha_scheme {c : Char} (hc : c ∈ u.scheme) : c.isAlpha = true := by
  have hletters : ∀ d ∈ "http".toList ++ "https".toList, d.isAlpha = true :=
    List.all_eq_true.mp rfl
  refine isAlpha_of_toLower (hletters _ ?_)
  rw [List.mem_append]
  rcases u.http with h | h
  · exact .inl (h ▸ List.mem_map_of_mem hc)
  · exact .inr (h ▸ List.mem_map_of_mem hc)

theorem RemoteUrl.length_scheme : 4 ≤ u.scheme.length := by
  have hlen : u.scheme.length = 4 ∨ u.scheme.length = 5 := by
    rw [← List.length_map Char.toLower]
    exact u.http.imp (congrArg List.length) (congrArg List.length)
  omega

/-- A character of an authority that is no letter and no digit. -/
def marksOfAuthority : List Char := ['-', '.', '_', ':', '[', ']']

theorem isAlphanum_of_isDigit {c : Char} (h : c.isDigit = true) : c.isAlphanum = true := by
  rw [Char.isAlphanum, h, Bool.or_true]

theorem Host.mem_text {host : Host} {c : Char} (hc : c ∈ host.text) :
    c.isAlphanum = true ∨ among marksOfAuthority c = true := by
  cases host with
  | name n hne hchars =>
      have hhost := hchars c hc
      rw [isHostChar, Bool.or_eq_true] at hhost
      have hmarks : ∀ d ∈ ['-', '.', '_'], among marksOfAuthority d = true :=
        List.all_eq_true.mp rfl
      exact hhost.imp_right fun h => hmarks c (List.contains_iff_mem.mp h)
  | literal address hchars =>
      rcases List.mem_append.mp hc with hc | hc
      · rcases List.mem_cons.mp hc with rfl | hc
        · exact .inr rfl
        · have haddress := hchars c hc
          rw [isAddressChar, Bool.or_eq_true] at haddress
          have hmarks : ∀ d ∈ [':', '.'], among marksOfAuthority d = true :=
            List.all_eq_true.mp rfl
          exact haddress.imp_right fun h => hmarks c (List.contains_iff_mem.mp h)
      · rw [List.mem_singleton.mp hc]
        exact .inr rfl

theorem Host.getLast?_text {host : Host} :
    ∀ c ∈ host.text.getLast?, isUnreserved c = true ∨ c = ']' := by
  intro c hc
  cases host with
  | name n hne hchars =>
      have hhost := hchars c (List.mem_of_mem_getLast? hc)
      rw [isHostChar, Bool.or_eq_true] at hhost
      left
      rw [isUnreserved, Bool.or_eq_true]
      have hmarks : ∀ d ∈ ['-', '.', '_'], among ['-', '.', '_', '~'] d = true :=
        List.all_eq_true.mp rfl
      exact hhost.imp_right fun h => hmarks c (List.contains_iff_mem.mp h)
  | literal address hchars =>
      right
      have hlast : (Host.literal address hchars).text.getLast? = some ']' := List.getLast?_concat
      rw [hlast] at hc
      cases hc
      rfl

theorem RemoteUrl.mem_authority {c : Char} (hc : c ∈ u.authority) :
    c.isAlphanum = true ∨ among marksOfAuthority c = true := by
  rcases List.mem_append.mp hc with hc | hc
  · exact Host.mem_text hc
  · cases hport : u.port with
    | none =>
        rw [hport] at hc
        cases hc
    | some p =>
        rw [hport] at hc
        rcases List.mem_cons.mp hc with rfl | hc
        · exact .inr rfl
        · exact .inl (isAlphanum_of_isDigit ((u.digits p hport).2 c hc))

/-- An authority has no slash of either kind. -/
theorem RemoteUrl.ne_of_mem_authority {c : Char} (hc : c ∈ u.authority) :
    c ≠ '/' ∧ c ≠ '\\' := by
  have hcases := u.mem_authority hc
  constructor
  · rintro rfl
    revert hcases
    decide
  · rintro rfl
    revert hcases
    decide

/-- An authority ends with a character of a host name, a digit or a bracket. -/
theorem RemoteUrl.getLast?_authority :
    ∀ c ∈ u.authority.getLast?, isUnreserved c = true ∨ c = ']' := by
  intro c hc
  unfold RemoteUrl.authority at hc
  cases hport : u.port with
  | none =>
      rw [hport] at hc
      change c ∈ (u.host.text ++ []).getLast? at hc
      rw [List.append_nil] at hc
      exact Host.getLast?_text c hc
  | some p =>
      obtain ⟨hne, hdigits⟩ := u.digits p hport
      rw [hport] at hc
      change c ∈ (u.host.text ++ ':' :: p).getLast? at hc
      rw [List.append_cons, List.getLast?_append_of_ne_nil _ hne] at hc
      left
      rw [isUnreserved, isAlphanum_of_isDigit (hdigits c (List.mem_of_mem_getLast? hc))]
      rfl

theorem RemoteUrl.text_eq : u.text =
    u.scheme ++ ':' :: '/' :: '/' :: (u.authority ++ pathText u.segments) := by
  unfold RemoteUrl.text
  simp only [List.append_assoc]
  rfl

/-- The slashes of a URL that begin a path are those of its own path. -/
theorem unmatched_posix_iff : Unmatched (posixAbsolutePath W) u.text ↔
    clear u.authority u.segments = true := by
  have hscheme : ∀ c ∈ u.scheme ++ [':'], c ≠ '/' := by
    intro c hc
    rcases List.mem_append.mp hc with hc | hc
    · rintro rfl
      cases u.isAlpha_scheme hc
    · rintro rfl
      simp at hc
  -- of the two slashes the first has no segment, and the second is behind a slash
  have hfirst : run (posixAbsolutePath W)
      ⟨some ':', '/' :: '/' :: (u.authority ++ pathText u.segments)⟩ = [] := by
    refine run_posix_eq_nil_iff.mpr (.inr fun h => ?_)
    have htaken : Taken W ⟨some ':', pathText ([] :: u.authority :: u.segments)⟩ := h
    cases htaken.step.1
  have hsecond : run (posixAbsolutePath W)
      ⟨some '/', '/' :: (u.authority ++ pathText u.segments)⟩ = [] :=
    run_posix_eq_nil_iff.mpr (.inl (Bool.or_true _))
  rw [unmatched_iff, u.text_eq, List.append_cons,
    unmatchedAt_append fun c hc _ _ => run_posix_of_ne (hscheme c hc), List.getLast?_concat,
    Option.some_or, unmatchedAt_cons, and_iff_right hfirst, unmatchedAt_cons,
    and_iff_right hsecond,
    unmatchedAt_append fun c hc _ _ => run_posix_of_ne (u.ne_of_mem_authority hc).1,
    unmatchedAt_pathText u.unreserved u.getLast?_authority]

/-! ### The other two patterns -/

/-- A colon is not followed by a slash. -/
def Apart (c d : Char) : Prop := c = ':' → d ≠ '/'

theorem mem_pathText {ss : List (List Char)} {c : Char} (hc : c ∈ pathText ss) :
    c = '/' ∨ ∃ s ∈ ss, c ∈ s := by
  obtain ⟨s, hs, hc⟩ := List.mem_flatMap.mp hc
  exact (List.mem_cons.mp hc).imp_right fun hc => ⟨s, hs, hc⟩

/-- A path has no colon and no backslash. -/
theorem RemoteUrl.ne_of_mem_path {c : Char} (hc : c ∈ pathText u.segments) :
    c ≠ ':' ∧ c ≠ '\\' := by
  rcases mem_pathText hc with rfl | ⟨s, hs, hc⟩
  · decide
  · have hunreserved := u.unreserved s hs c hc
    constructor
    · rintro rfl
      cases hunreserved
    · rintro rfl
      cases hunreserved

theorem RemoteUrl.ne_backslash {c : Char} (hc : c ∈ u.text) : c ≠ '\\' := by
  rw [u.text_eq] at hc
  simp only [List.mem_append, List.mem_cons] at hc
  rcases hc with hc | rfl | rfl | rfl | hc | hc
  · rintro rfl
    cases u.isAlpha_scheme hc
  · decide
  · decide
  · decide
  · exact (u.ne_of_mem_authority hc).2
  · exact (u.ne_of_mem_path hc).2

/-- Behind the colon of the scheme no colon is followed by a slash. -/
theorem RemoteUrl.isChain_apart :
    ('/' :: '/' :: (u.authority ++ pathText u.segments)).IsChain Apart := by
  have hauthority : u.authority.IsChain Apart :=
    (List.pairwise_of_forall_mem_list fun c _ d hd =>
      show Apart c d from fun _ => (u.ne_of_mem_authority hd).1).isChain
  have hpath : (pathText u.segments).IsChain Apart :=
    (List.pairwise_of_forall_mem_list fun c hc d _ =>
      show Apart c d from fun h => absurd h (u.ne_of_mem_path hc).1).isChain
  have hboth : (u.authority ++ pathText u.segments).IsChain Apart := by
    refine hauthority.append hpath ?_
    rintro c hc _ - rfl
    rcases u.getLast?_authority ':' hc with h | h
    · cases h
    · cases h
  have hslash : ∀ d, Apart '/' d := by
    rintro d ⟨⟩
  exact (hboth.cons fun d _ => hslash d).cons fun d _ => hslash d

/-- The one colon before a slash is that of the scheme. -/
theorem RemoteUrl.eq_scheme {a b : List Char} (h : u.text = a ++ ':' :: '/' :: b) :
    a = u.scheme := by
  rw [u.text_eq] at h
  rcases List.append_eq_append_iff.mp h with ⟨x, ha, hx⟩ | ⟨x, hscheme, hx⟩
  · cases x with
    | nil => rw [ha, List.append_nil]
    | cons c x =>
        -- a later one
        have htail := (List.cons.inj hx).2
        have hapart := List.isChain_iff_forall_rel_of_append_cons_cons.mp u.isChain_apart htail
        exact absurd rfl (hapart rfl)
  · cases x with
    | nil => rw [hscheme, List.append_nil]
    | cons c x =>
        -- one in the scheme
        have hcolon : c ∈ u.scheme := by
          rw [hscheme]
          exact List.mem_append_right a List.mem_cons_self
        have halpha := u.isAlpha_scheme hcolon
        rw [← (List.cons.inj hx).1] at halpha
        cases halpha

theorem eq_of_matches_char {c : Char} {m : List Char} (h : Matches (char c) m) : m = [c] := by
  cases h with
  | symbol hc =>
      rw [List.mem_singleton.mp (List.contains_iff_mem.mp hc)]

/-- A Windows path has a backslash, or begins with a drive and a slash. -/
theorem matches_windowsPath {m : List Char} (h : Matches (windowsPath W) m) :
    '\\' ∈ m ∨ ∃ c m', m = c :: ':' :: '/' :: m' := by
  cases h with
  | seq hroot _ =>
      cases hroot with
      | altLeft hdrive =>
          cases hdrive with
          | seq hletter hmore =>
              cases hletter
              cases hmore with
              | seq hcolon hseparator =>
                  rw [eq_of_matches_char hcolon]
                  cases hseparator with
                  | symbol hc =>
                      have hcases := List.contains_iff_mem.mp hc
                      rcases List.mem_cons.mp hcases with rfl | hc
                      · left
                        simp
                      · rw [List.mem_singleton.mp hc]
                        exact .inr ⟨_, _, rfl⟩
      | altRight hunc =>
          left
          cases hunc with
          | seq hbackslash _ =>
              rw [eq_of_matches_char hbackslash]
              exact List.mem_append_left _ (List.mem_append_left _ (List.mem_singleton_self _))

/-- A drive letter before the slashes would be the last of the scheme. -/
theorem RemoteUrl.unmatched_windows : Unmatched (windowsAbsolutePath W) u.text := by
  intro a b htext hb
  rw [List.eq_nil_iff_forall_not_mem]
  intro q hq
  obtain ⟨hbefore, hq⟩ := mem_run_windows.mp hq
  obtain ⟨m, hm, hmatch⟩ := matches_of_run _ hq
  change b = m ++ q.rest at hm
  rcases matches_windowsPath hmatch with hbackslash | ⟨c, m, rfl⟩
  · refine u.ne_backslash ?_ rfl
    rw [htext, hm]
    exact List.mem_append_right a (List.mem_append_left q.rest hbackslash)
  · have hscheme : a ++ [c] = u.scheme := by
      apply u.eq_scheme
      rw [htext, hm, List.append_assoc]
      rfl
    rcases List.eq_nil_or_concat a with rfl | ⟨a, d, rfl⟩
    · have hlen := u.length_scheme
      rw [← hscheme, List.nil_append, List.length_singleton] at hlen
      omega
    · have hd : d ∈ u.scheme := by
        rw [← hscheme]
        simp
      rw [List.concat_eq_append, List.getLast?_concat] at hbefore
      change (W.isWord d || _) = false at hbefore
      rw [isWord_of_isAlpha W (u.isAlpha_scheme hd), Bool.true_or] at hbefore
      cases hbefore

theorem toLower_getLast?_scheme {c : Char} (hc : c ∈ u.scheme.getLast?) :
    c.toLower = 'p' ∨ c.toLower = 's' := by
  have hlower : (u.scheme.map Char.toLower).getLast? = some c.toLower := by
    rw [List.getLast?_map, Option.mem_def.mp hc, Option.map_some]
  rcases u.http with h | h
  · rw [h] at hlower
    exact .inl (Option.some.inj hlower).symm
  · rw [h] at hlower
    exact .inr (Option.some.inj hlower).symm

/-- The name of the file scheme does not end like the two others. -/
theorem RemoteUrl.unmatched_file : Unmatched (fileUrlPath W) u.text := by
  intro a b htext hb
  rw [List.eq_nil_iff_forall_not_mem]
  intro q hq
  obtain ⟨m, hm, hmatch⟩ := matches_of_run _ hq
  change b = m ++ q.rest at hm
  obtain ⟨l, m', rfl, hl, -⟩ := matches_literal hmatch
  obtain ⟨c₁, l₁, -, hl₁, rfl⟩ := List.forall₂_cons_left_iff.mp hl
  obtain ⟨c₂, l₂, -, hl₂, rfl⟩ := List.forall₂_cons_left_iff.mp hl₁
  obtain ⟨c₃, l₃, -, hl₃, rfl⟩ := List.forall₂_cons_left_iff.mp hl₂
  obtain ⟨e, l₄, he, hl₄, rfl⟩ := List.forall₂_cons_left_iff.mp hl₃
  obtain ⟨d, l₅, hd, hl₅, rfl⟩ := List.forall₂_cons_left_iff.mp hl₄
  obtain ⟨d', l₆, hd', -, rfl⟩ := List.forall₂_cons_left_iff.mp hl₅
  obtain rfl : d = ':' := List.mem_singleton.mp (List.contains_iff_mem.mp hd)
  obtain rfl : d' = '/' := List.mem_singleton.mp (List.contains_iff_mem.mp hd')
  have hscheme : a ++ [c₁, c₂, c₃, e] = u.scheme := by
    apply u.eq_scheme (b := l₆ ++ m' ++ q.rest)
    rw [htext, hm]
    simp only [List.append_assoc, List.cons_append, List.nil_append]
  have hlast : e ∈ u.scheme.getLast? := by
    rw [← hscheme]
    simp
  have hlower := toLower_getLast?_scheme u hlast
  have hcases : e = 'e' ∨ e = 'E' := by simpa [among] using he
  rcases hcases with rfl | rfl
  · revert hlower
    decide
  · revert hlower
    decide

/-! ## §5  Which URLs are preserved -/

/-- No slash stands behind a bracket, a hyphen or a tilde: the URL is clear. -/
theorem clear_of_ends {piece : List Char} {ss : List (List Char)}
    (h : ∀ p ∈ (piece :: ss).dropLast, p.getLast?.any (among [']', '-', '~']) = false) :
    clear piece ss = true := by
  induction ss generalizing piece with
  | nil => rfl
  | cons s ss ih =>
      rw [List.dropLast_cons_cons, List.forall_mem_cons] at h
      rw [clear, h.1, ih h.2]
      rfl

/-- A URL, on its own or in a text that the masker leaves alone, is left as it is exactly when
each slash of its path that stands behind a bracket, a hyphen or a tilde is blocked. -/
theorem remote_url_preserved_iff (W : WordChars) (u : RemoteUrl) {a b : List Char}
    (ha : ∀ c ∈ a.getLast?, isDelimiter c = true) (hb : ∀ c ∈ b.head?, isDelimiter c = true)
    (ha' : redactAbsolutePaths W a = a) (hb' : redactAbsolutePaths W b = b) :
    redactAbsolutePaths W (a ++ u.text ++ b) = a ++ u.text ++ b ↔
      clear u.authority u.segments = true := by
  rw [redactAbsolutePaths_delimited W ha hb, ha', hb', List.append_left_inj, List.append_right_inj,
    redact_eq_self_iff, and_iff_right u.unmatched_file, and_iff_right u.unmatched_windows,
    unmatched_posix_iff]

/-- `https://example.com/path/to/file` -/
def upstreamUrl : RemoteUrl where
  scheme := "https".toList
  host := .name "example.com".toList (List.cons_ne_nil _ _) (List.all_eq_true.mp rfl)
  port := none
  segments := ["path".toList, "to".toList, "file".toList]
  http := .inr rfl
  digits := by
    rintro p ⟨⟩
  unreserved := by
    simp only [List.forall_mem_cons, List.not_mem_nil, false_imp_iff, implies_true, and_true]
    exact ⟨List.all_eq_true.mp rfl, List.all_eq_true.mp rfl, List.all_eq_true.mp rfl⟩

theorem upstream_url_preserved :
    redactAbsolutePaths .asciiOnly ("upstream ".toList ++ upstreamUrl.text ++ " failed".toList) =
      "upstream ".toList ++ upstreamUrl.text ++ " failed".toList := by
  refine (remote_url_preserved_iff .asciiOnly upstreamUrl ?_ ?_ rfl rfl).mpr ?_
  · rintro c ⟨⟩
    rfl
  · rintro c ⟨⟩
    rfl
  · apply clear_of_ends
    exact List.forall_mem_cons.mpr ⟨rfl, List.forall_mem_cons.mpr ⟨rfl, List.forall_mem_cons.mpr
      ⟨rfl, List.forall_mem_nil _⟩⟩⟩

/-- `http://[::1]/status` -/
def loopbackUrl : RemoteUrl where
  scheme := "http".toList
  host := .literal "::1".toList (List.all_eq_true.mp rfl)
  port := none
  segments := ["status".toList]
  http := .inl rfl
  digits := by
    rintro p ⟨⟩
  unreserved := by
    simp only [List.forall_mem_cons, List.not_mem_nil, false_imp_iff, implies_true, and_true]
    exact List.all_eq_true.mp rfl

/-- Behind the bracket of an address the path is taken for a local one. -/
theorem loopback_url_masked :
    redactAbsolutePaths .asciiOnly loopbackUrl.text = "http://[::1]<redacted-path>".toList ∧
      redactAbsolutePaths .asciiOnly loopbackUrl.text ≠ loopbackUrl.text := by
  have hmasked : redactAbsolutePaths .asciiOnly loopbackUrl.text =
      "http://[::1]<redacted-path>".toList := rfl
  refine ⟨hmasked, ?_⟩
  rw [hmasked]
  decide

end Paths

end OpencodeA2a.Redact
