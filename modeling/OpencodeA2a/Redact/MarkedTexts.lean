import OpencodeA2a.Library.Boundaries
import OpencodeA2a.Redact.Idempotence

/-!
# Which characters the masker takes

The masker on characters that carry a mark: the marks that are left tell which characters of a
text survive. What is masked in a text stays masked when a backslash follows, whatever comes
behind it, unless the text ends in a colon.
-/

namespace OpencodeA2a.Redact

open OpencodeA2a.Pattern

/-! ## §1  Marks -/

abbrev MarkedText := List (Char × Bool)

/-- The placeholder, which carries no marks. -/
def blank : MarkedText := placeholder.map fun c => (c, false)

def mark (b : Bool) (l : List Char) : MarkedText := l.map fun c => (c, b)

section Passes

variable (W : WordChars) (text : MarkedText)

def filePass : MarkedText := sub ((fileUrlPath W).comap Prod.fst) blank text

def windowsPass : MarkedText := sub ((windowsAbsolutePath W).comap Prod.fst) blank text

def posixPass : MarkedText := sub ((posixAbsolutePath W).comap Prod.fst) blank text

/-- `redact_absolute_paths` on marked characters. -/
def redactMarked : MarkedText := posixPass W (windowsPass W (filePass W text))

end Passes

variable {W : WordChars} {text : MarkedText}

theorem map_fst_blank : blank.map Prod.fst = placeholder := rfl

/-- The marks change nothing. -/
theorem map_fst_redactMarked (text : MarkedText) :
    (redactMarked W text).map Prod.fst = redactAbsolutePaths W (text.map Prod.fst) := by
  unfold redactMarked posixPass windowsPass filePass
  rw [sub_comap, sub_comap, sub_comap, map_fst_blank]
  rfl

/-- No character is marked. -/
def Unmarked (text : MarkedText) : Prop := ∀ x ∈ text, x.2 = false

theorem unmarked_blank : Unmarked blank := by
  intro x hx
  obtain ⟨c, -, rfl⟩ := List.mem_map.mp hx
  rfl

theorem Unmarked.append {l m : MarkedText} (hl : Unmarked l) (hm : Unmarked m) :
    Unmarked (l ++ m) :=
  fun x hx => (List.mem_append.mp hx).elim (hl x) (hm x)

theorem unmarked_append_iff {l m : MarkedText} : Unmarked (l ++ m) ↔ Unmarked l ∧ Unmarked m := by
  constructor
  · intro h
    exact ⟨fun x hx => h x (List.mem_append_left _ hx), fun x hx => h x (List.mem_append_right _ hx)⟩
  · rintro ⟨hl, hm⟩
    exact hl.append hm

theorem Unmarked.subFrom {r : Regex (Char × Bool)} {n : ℕ} {pl : Place (Char × Bool)}
    (h : Unmarked pl.rest) : Unmarked (subFrom r blank n pl) :=
  fun x hx => (mem_subFrom hx).elim (h x) (unmarked_blank x)

theorem Unmarked.sub {r : Regex (Char × Bool)} (h : Unmarked text) :
    Unmarked (sub r blank text) := Unmarked.subFrom h

theorem Unmarked.redactMarked (h : Unmarked text) : Unmarked (redactMarked W text) :=
  Unmarked.sub (Unmarked.sub (Unmarked.sub h))

/-! ## §2  Neutral characters -/

section Neutral

variable {x : Char × Bool} (hx : isNeutral W x.1 = true)

include hx

end Neutral

/-! ## §3  A backslash behind the text -/

/-- The text does not end in a colon. -/
def NoColonAtEnd (text : MarkedText) : Prop := ∀ x ∈ text.getLast?, x.1 ≠ ':'

theorem NoColonAtEnd.suffix {l m : MarkedText} (h : NoColonAtEnd (l ++ m)) : NoColonAtEnd m := by
  intro x hx
  apply h
  rw [List.getLast?_append, Option.mem_def.mp hx]
  rfl

theorem NoColonAtEnd.of_run {r : Regex (Char × Bool)} {pl q : Place (Char × Bool)}
    (h : NoColonAtEnd pl.rest) (hq : q ∈ run r pl) : NoColonAtEnd q.rest := by
  obtain ⟨m, hm, -⟩ := matches_of_run r hq
  rw [hm] at h
  exact h.suffix

section Escape

variable {z : MarkedText} {d : Char × Bool}

/-- A class of characters without the backslash. -/
theorem stops_symbol {p : Char → Bool} (hp : p '\\' = false) (b : Bool) :
    Stops ('\\', b) (Regex.comap Prod.fst (.symbol p)) := hp

theorem stops_name (b : Bool) : Stops ('\\', b) ((name W).comap Prod.fst) := by
  have h : nameChar W '\\' = false := by
    simp [nameChar, W.ascii '\\' (by decide), among]
  exact ⟨h, h⟩

theorem stops_segment (b : Bool) : Stops ('\\', b) ((segment W).comap Prod.fst) :=
  ⟨stops_name b, rfl, stops_name b⟩

/-- A drive letter's colon is not the end of the text, so that the separator is in it. -/
theorem commutesAt_drive {letters : Char → Bool} (hletters : letters '\\' = false)
    {pl : Place (Char × Bool)} (hpl : NoColonAtEnd pl.rest) (y : MarkedText) (b : Bool) :
    CommutesAt (('\\', b) :: y)
      ((Regex.seq (.symbol letters) (.seq (char ':') separator)).comap Prod.fst) pl := by
  apply CommutesAt.seq ((stops_symbol hletters b).commutes_extend y pl)
  intro q hq
  have hq := hpl.of_run hq
  apply CommutesAt.seq ((stops_symbol rfl b : Stops _ ((char ':').comap Prod.fst)).commutes_extend y q)
  intro q' hq'
  apply commutesAt_symbol
  intro hnil
  obtain ⟨before, rest⟩ := q
  cases rest with
  | nil => cases hq'
  | cons a l =>
      have hmem : q' ∈ (if among [':'] a.1 then [Place.mk (some a) l] else []) := hq'
      split at hmem
      · rename_i ha
        rw [List.mem_singleton] at hmem
        subst hmem
        have hl : l = [] := hnil
        subst hl
        exact hq a rfl (by simpa [among] using ha)
      · cases hmem

theorem commutesAt_file {pl : Place (Char × Bool)} (hpl : NoColonAtEnd pl.rest) (y : MarkedText)
    (b : Bool) : CommutesAt (('\\', b) :: y) ((fileUrlPath W).comap Prod.fst) pl := by
  have hletter : ∀ (p : Char → Bool) (r : Regex Char), p '\\' = false →
      (∀ q : Place (Char × Bool), NoColonAtEnd q.rest →
        CommutesAt (('\\', b) :: y) (r.comap Prod.fst) q) →
      ∀ q : Place (Char × Bool), NoColonAtEnd q.rest →
        CommutesAt (('\\', b) :: y) ((Regex.seq (.symbol p) r).comap Prod.fst) q := by
    intro p r hp hr q hq
    apply CommutesAt.seq ((stops_symbol hp b).commutes_extend y q)
    intro q' hq'
    exact hr q' (hq.of_run hq')
  have hslash : Stops ('\\', b) ((char '/').comap Prod.fst) := stops_symbol rfl b
  have hrest : Stops ('\\', b) ((Regex.seq (segment W) (.star (.seq (char '/') (segment W)))).comap
      Prod.fst) := ⟨stops_segment b, hslash, stops_segment b⟩
  have hhost : Stops ('\\', b) ((Regex.seq (name W)
      (.seq (.star (.seq (.symbol (among ['.', ':'])) (name W))) (char '/'))).comap Prod.fst) :=
    ⟨stops_name b, ⟨stops_symbol rfl b, stops_name b⟩, hslash⟩
  unfold fileUrlPath
  simp only [Regex.literal, List.foldr_cons, List.foldr_nil]
  refine hletter _ _ rfl (hletter _ _ rfl (hletter _ _ rfl (hletter _ _ rfl (hletter _ _ rfl
    (hletter _ _ rfl (hletter _ _ rfl ?_)))))) pl hpl
  intro q hq
  refine CommutesAt.seq (CommutesAt.alt ?_ (CommutesAt.alt ?_ ?_)) fun q' _ => ?_
  · exact commutesAt_drive rfl hq y b
  · exact hhost.commutes_extend y q
  · exact hslash.commutes_extend y q
  · exact hrest.commutes_extend y q'

theorem commutesAt_stops {r : Regex (Char × Bool)} {b : Bool} (h : Stops ('\\', b) r)
    (y : MarkedText) (pl : Place (Char × Bool)) : CommutesAt (('\\', b) :: y) r pl :=
  h.commutes_extend y pl

theorem run_notBehind {α : Type} (p : α → Bool) (pl : Place α) :
    run (.notBehind p) pl = [] ∨ run (.notBehind p) pl = [pl] := by
  simp only [run]
  split
  · exact Or.inl rfl
  · exact Or.inr rfl

/-- A drive has one end at most. -/
theorem run_drive (pl : Place (Char × Bool)) :
    run ((Regex.seq letter (.seq (char ':') separator)).comap Prod.fst) pl = [] ∨
      ∃ q, run ((Regex.seq letter (.seq (char ':') separator)).comap Prod.fst) pl = [q] := by
  have hone : ∀ (p : Char → Bool) (pl : Place (Char × Bool)),
      run (Regex.comap Prod.fst (.symbol p)) pl = [] ∨
        ∃ q, run (Regex.comap Prod.fst (.symbol p)) pl = [q] := by
    rintro p ⟨before, rest⟩
    cases rest with
    | nil => exact Or.inl rfl
    | cons a l =>
        show (if p a.1 then [_] else []) = [] ∨ ∃ q, (if p a.1 then [_] else []) = [q]
        split
        · exact Or.inr ⟨_, rfl⟩
        · exact Or.inl rfl
  have hseq : ∀ (r s : Regex (Char × Bool)),
      (∀ pl, run r pl = [] ∨ ∃ q, run r pl = [q]) → (∀ pl, run s pl = [] ∨ ∃ q, run s pl = [q]) →
      ∀ pl, run (.seq r s) pl = [] ∨ ∃ q, run (.seq r s) pl = [q] := by
    intro r s hr hs pl
    simp only [run]
    rcases hr pl with hnil | ⟨q, hq⟩
    · rw [hnil]
      exact Or.inl rfl
    · rw [hq, List.flatMap_cons, List.flatMap_nil, List.append_nil]
      exact hs q
  exact hseq _ _ (hone _) (hseq _ _ (hone _) (hone _)) pl

/-- A UNC path does not begin with another character than a backslash. -/
theorem run_uncRoot_eq_nil {pl : Place (Char × Bool)} (h : ∀ x ∈ pl.rest.head?, x.1 ≠ '\\') :
    run ((uncRoot W).comap Prod.fst) pl = [] := by
  apply run_seq_eq_nil
  apply run_symbol_eq_nil
  intro x hx
  simpa [among] using h x hx

theorem continues_windows {pl : Place (Char × Bool)} (hne : pl.rest ≠ [])
    (hback : ∀ x ∈ pl.rest, x.1 ≠ '\\') (hpl : NoColonAtEnd pl.rest) (y : MarkedText) (b : Bool) :
    Continues ((windowsAbsolutePath W).comap Prod.fst) (('\\', b) :: y) pl := by
  obtain ⟨before, rest⟩ := pl
  obtain ⟨c, l, rfl⟩ := List.exists_cons_of_ne_nil hne
  have hbehind : Stops ('\\', b) (Regex.comap Prod.fst
      (.notBehind fun c => W.isWord c || among ['\\', '/'] c)) := trivial
  have hunc : ∀ l', run ((uncRoot W).comap Prod.fst) ⟨before, c :: l'⟩ = [] := by
    intro l'
    apply run_uncRoot_eq_nil
    rintro x ⟨⟩
    exact hback c List.mem_cons_self
  have hroot : CommutesAt (('\\', b) :: y) (Regex.comap Prod.fst
      (.alt (.seq letter (.seq (char ':') separator)) (uncRoot W))) ⟨before, c :: l⟩ := by
    refine CommutesAt.alt (commutesAt_drive rfl hpl y b) ?_
    unfold CommutesAt
    rw [hunc]
    exact hunc _
  have hsegments : ∀ q, Continues ((Regex.seq (segment W)
      (.star (.seq separator (segment W)))).comap Prod.fst) (('\\', b) :: y) q := by
    intro q
    refine Continues.seq_star (commutesAt_stops (stops_segment b) y q) fun q' => ?_
    refine Continues.star ?_ (fun pl hrest => ?_) q'
    · exact (Needs.comap (.seqLeft (.symbol fun _ h => h) :
        Needs (among ['\\', '/'] · = true) (.seq separator (segment W)))).consuming
    · exact (commutesAt_symbol hrest _).seq fun q _ => commutesAt_stops (stops_segment b) y q
  apply Continues.seq (commutesAt_stops hbehind y _)
  rcases run_notBehind (fun x : Char × Bool => W.isWord x.1 || among ['\\', '/'] x.1)
    ⟨before, c :: l⟩ with hnil | hsame
  · exact Or.inl hnil
  · refine Or.inr ⟨_, hsame, ?_⟩
    apply Continues.seq hroot
    have hroots : run (Regex.comap Prod.fst (.alt (.seq letter (.seq (char ':') separator))
        (uncRoot W))) ⟨before, c :: l⟩ =
        run ((Regex.seq letter (.seq (char ':') separator)).comap Prod.fst) ⟨before, c :: l⟩ := by
      show _ ++ run ((uncRoot W).comap Prod.fst) ⟨before, c :: l⟩ = _
      rw [hunc, List.append_nil]
    rw [hroots]
    rcases run_drive ⟨before, c :: l⟩ with hnil | ⟨q, hq⟩
    · exact Or.inl hnil
    · exact Or.inr ⟨q, hq, hsegments q⟩

end Escape

/-! ### From pass to pass -/

/-- What a pass finds where `v` follows `text`: a bracket of a placeholder on one side, or the
backslash behind a text without backslashes that does not end in a colon. -/
inductive Joint : MarkedText → MarkedText → Prop
  | close (l v : MarkedText) : Joint (l ++ [('>', false)]) v
  | opening (text v : MarkedText) : Joint text (('<', false) :: v)
  | backslash (text v : MarkedText) (hback : ∀ x ∈ text, x.1 ≠ '\\') (hcolon : NoColonAtEnd text) :
      Joint text (('\\', false) :: v)

theorem blank_eq : blank = ('<', false) :: mark false placeholderName ++ [('>', false)] := rfl

theorem mem_blank {x : Char × Bool} (hx : x ∈ blank) : x.1 ≠ '\\' ∧ x.1 ≠ ':' := by
  have hnone : blank.any (fun x => among ['\\', ':'] x.1) = false := by decide
  have h := List.any_eq_false.mp hnone x hx
  simpa [among] using h

/-- A pass leaves alone what follows the joint of two texts, and there is again a joint. -/
theorem Joint.pass {r : Regex (Char × Bool)} (hr : Consuming r) (hopen : Avoids ('<', false) r)
    (hclose : Avoids ('>', false) r)
    (hback : ∀ (text y : MarkedText), (∀ x ∈ text, x.1 ≠ '\\') → NoColonAtEnd text → text ≠ [] →
      ∀ before, Continues r (('\\', false) :: y) ⟨before, text⟩)
    {v : MarkedText} (h : Joint text v) (hv : Unmarked v) :
    ∃ v', sub r blank (text ++ v) = sub r blank text ++ v' ∧ Unmarked v' ∧
      Joint (sub r blank text) v' := by
  cases h with
  | close l v =>
      refine ⟨sub r blank v, ?_, hv.sub, ?_⟩
      · rw [List.append_assoc, List.singleton_append, sub_delimiter hclose, sub_delimiter hclose,
          List.append_assoc]
        rfl
      · rw [sub_delimiter hclose]
        exact .close _ _
  | opening text v =>
      refine ⟨('<', false) :: sub r blank v, sub_delimiter hopen _ _ _, ?_, .opening _ _⟩
      exact (unmarked_append_iff.mpr ⟨fun x hx => hv x (List.mem_singleton.mp hx ▸ List.mem_cons_self),
        Unmarked.sub fun x hx => hv x (List.mem_cons_of_mem _ hx)⟩ : Unmarked ([_] ++ _))
  | backslash text v hnone hcolon =>
      have hcontinues : ∀ a b, text = a ++ b → b ≠ [] →
          Continues r (('\\', false) :: v) ⟨a.getLast?, b⟩ := by
        rintro a b rfl hb
        exact hback b v (fun x hx => hnone x (List.mem_append_right a hx)) hcolon.suffix hb _
      rcases sub_extend hr blank hcontinues with hsub | ⟨l, q, hl, hq, hsub⟩
      · refine ⟨_, hsub, Unmarked.subFrom hv, ?_⟩
        have hback' : ∀ x ∈ sub r blank text, x.1 ≠ '\\' := fun x hx =>
          (mem_subFrom hx).elim (hnone x) fun hx => (mem_blank hx).1
        have hcolon' : NoColonAtEnd (sub r blank text) := fun x hx =>
          (getLast?_sub hr (List.cons_ne_nil _ _) hx).elim (hcolon x) fun hx => (mem_blank hx).2
        rw [List.length_cons]
        cases hrun : (run r ⟨text.getLast?, ('\\', false) :: v⟩).head? with
        | none =>
            rw [subFrom_skip blank _ (List.head?_eq_none_iff.mp hrun)]
            exact .backslash _ _ hback' hcolon'
        | some q =>
            rw [subFrom_match hr blank _ hrun]
            exact .opening _ _
      · refine ⟨Pattern.subFrom r blank (('\\', false) :: v).length q, ?_, ?_, ?_⟩
        · rw [hsub, hl]
        · apply Unmarked.subFrom
          intro x hx
          exact hv x (hq.subset hx)
        · rw [hl, blank_eq, ← List.append_assoc]
          exact .close _ _

theorem Joint.filePass {v : MarkedText} (h : Joint text v) (hv : Unmarked v) :
    ∃ v', filePass W (text ++ v) = filePass W text ++ v' ∧ Unmarked v' ∧
      Joint (filePass W text) v' :=
  h.pass (needs_fileUrlPath W).comap.consuming (avoids_comap (avoids_fileUrlPath (isNeutral_open W)))
    (avoids_comap (avoids_fileUrlPath (isNeutral_close W)))
    (fun _ y _ hcolon _ _ => (commutesAt_file hcolon y false).continues) hv

theorem Joint.windowsPass {v : MarkedText} (h : Joint text v) (hv : Unmarked v) :
    ∃ v', windowsPass W (text ++ v) = windowsPass W text ++ v' ∧ Unmarked v' ∧
      Joint (windowsPass W text) v' :=
  h.pass (needs_windowsAbsolutePath W).comap.consuming
    (avoids_comap (avoids_windowsAbsolutePath (isNeutral_open W)))
    (avoids_comap (avoids_windowsAbsolutePath (isNeutral_close W)))
    (fun _ y hnone hcolon hne _ => continues_windows hne hnone hcolon y false) hv

theorem stops_posixAbsolutePath (b : Bool) :
    Stops ('\\', b) ((posixAbsolutePath W).comap Prod.fst) := by
  have hstep : Stops ('\\', b) ((Regex.seq (char '/') (segment W)).comap Prod.fst) :=
    ⟨stops_symbol rfl b, stops_segment b⟩
  refine ⟨trivial, ⟨hstep, hstep⟩, ?_⟩
  show (W.isWord '\\' || among [':', '/', '{'] '\\') = false
  rw [W.ascii '\\' (by decide)]
  rfl

theorem Joint.posixPass {v : MarkedText} (h : Joint text v) (hv : Unmarked v) :
    ∃ v', posixPass W (text ++ v) = posixPass W text ++ v' ∧ Unmarked v' ∧
      Joint (posixPass W text) v' :=
  h.pass (needs_posixAbsolutePath W).comap.consuming
    (avoids_comap (avoids_posixAbsolutePath (isNeutral_open W)))
    (avoids_comap (avoids_posixAbsolutePath (isNeutral_close W)))
    (fun _ y _ _ _ _ => (stops_posixAbsolutePath false).continues y _) hv

end OpencodeA2a.Redact
