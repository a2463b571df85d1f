import OpencodeA2a.Library.Pattern
import Mathlib.Data.List.Count

/-!
# What a substitution leaves

The stretches of a text between the matches of a pattern: the text after the substitution is
made of them, no match begins in one, and a further pattern sees each of them with the
replacement around it instead of what stood there.
-/

namespace OpencodeA2a.Pattern

variable {α : Type}

/-! ## §1  Patterns without look-around -/

def Plain : Regex α → Prop
  | .symbol _ => True
  | .seq r s => Plain r ∧ Plain s
  | .alt r s => Plain r ∧ Plain s
  | .star r => Plain r
  | .notBehind _ => False
  | .notAhead _ => False

variable {r s : Regex α}

/-- A repetition ends at once, or after one match and further repetitions. -/
theorem mem_run_star {pl q : Place α} : q ∈ run (.star r) pl ↔
    q = pl ∨ ∃ q' ∈ run r pl, q'.rest.length < pl.rest.length ∧ q ∈ run (.star r) q' := by
  simp only [run]
  cases hlen : pl.rest.length with
  | zero =>
      simp only [iterate, List.mem_singleton, Nat.not_lt_zero, false_and, and_false, exists_false,
        or_false]
  | succ n =>
      rw [iterate, List.mem_append, List.mem_singleton, List.mem_flatMap, or_comm]
      apply or_congr Iff.rfl
      apply exists_congr
      intro q'
      rw [List.mem_filter, decide_eq_true_eq, and_assoc, hlen]
      apply and_congr_right
      intro _
      apply and_congr_right
      intro hlt
      rw [iterate_fuel (Nat.le_of_lt_succ hlt) (Nat.le_refl _)]

theorem run_star_trans {pl q q' : Place α} (hq : q ∈ run (.star r) pl)
    (hq' : q' ∈ run (.star r) q) : q' ∈ run (.star r) pl := by
  induction hlen : pl.rest.length using Nat.strongRecOn generalizing pl with
  | _ n ih =>
      rcases mem_run_star.mp hq with rfl | ⟨q₁, hq₁, hlt, hmore⟩
      · exact hq'
      · exact mem_run_star.mpr (Or.inr ⟨q₁, hq₁, hlt, ih _ (hlen ▸ hlt) hmore rfl⟩)

/-- What a pattern without look-around takes of a text, it takes of a longer text, whatever
stands before. -/
theorem Plain.run_extend (h : Plain r) {pl pl' q : Place α} (hq : q ∈ run r pl) {t : List α}
    (hpl : pl'.rest = pl.rest ++ t) : ∃ q' ∈ run r pl', q'.rest = q.rest ++ t := by
  induction r generalizing pl pl' q with
  | symbol p =>
      obtain ⟨before, rest⟩ := pl
      obtain ⟨before', rest'⟩ := pl'
      change rest' = rest ++ t at hpl
      subst hpl
      cases rest with
      | nil => cases hq
      | cons a l =>
          simp only [run, List.cons_append] at hq ⊢
          split at hq
          · rename_i ha
            rw [List.mem_singleton] at hq
            subst hq
            rw [if_pos ha]
            exact ⟨_, List.mem_singleton_self _, rfl⟩
          · cases hq
  | seq r s ihr ihs =>
      obtain ⟨q₁, hq₁, hend⟩ := List.mem_flatMap.mp hq
      obtain ⟨q₁', hq₁', hrest₁⟩ := ihr h.1 hq₁ hpl
      obtain ⟨q', hq', hrest⟩ := ihs h.2 hend hrest₁
      exact ⟨q', List.mem_flatMap.mpr ⟨q₁', hq₁', hq'⟩, hrest⟩
  | alt r s ihr ihs =>
      rcases List.mem_append.mp hq with hq | hq
      · obtain ⟨q', hq', hrest⟩ := ihr h.1 hq hpl
        exact ⟨q', List.mem_append_left _ hq', hrest⟩
      · obtain ⟨q', hq', hrest⟩ := ihs h.2 hq hpl
        exact ⟨q', List.mem_append_right _ hq', hrest⟩
  | star r ihr =>
      induction hlen : pl.rest.length using Nat.strongRecOn generalizing pl pl' with
      | _ n ih =>
          rcases mem_run_star.mp hq with rfl | ⟨q₁, hq₁, hlt, hmore⟩
          · exact ⟨pl', mem_run_star.mpr (Or.inl rfl), hpl⟩
          · obtain ⟨q₁', hq₁', hrest₁⟩ := ihr h hq₁ hpl
            obtain ⟨q', hq', hrest⟩ := ih _ (hlen ▸ hlt) hmore hrest₁ rfl
            have hlt' : q₁'.rest.length < pl'.rest.length := by
              rw [hrest₁, hpl, List.length_append, List.length_append]
              omega
            exact ⟨q', mem_run_star.mpr (Or.inr ⟨q₁', hq₁', hlt', hq'⟩), hrest⟩
  | notBehind p => exact h.elim
  | notAhead p => exact h.elim

/-- A pattern that does not match at a place does not match at its beginning either. -/
theorem Plain.run_eq_nil (h : Plain r) {pl pl' : Place α} {t : List α}
    (hpl : pl'.rest = pl.rest ++ t) (hnil : run r pl' = []) : run r pl = [] := by
  rw [List.eq_nil_iff_forall_not_mem]
  intro q hq
  obtain ⟨q', hq', -⟩ := h.run_extend hq hpl
  rw [hnil] at hq'
  cases hq'

/-! ### Look-around at either end -/

theorem mem_run_notBehind_seq {p : α → Bool} {pl q : Place α} :
    q ∈ run (.seq (.notBehind p) r) pl ↔ pl.before.any p = false ∧ q ∈ run r pl := by
  simp only [run]
  split
  · rename_i h
    simp only [List.flatMap_nil, List.not_mem_nil, h, Bool.true_eq_false, false_and]
  · rename_i h
    rw [Bool.not_eq_true] at h
    simp only [List.flatMap_cons, List.flatMap_nil, List.append_nil, h, true_and]

theorem mem_run_seq_notAhead {p : α → Bool} {pl q : Place α} :
    q ∈ run (.seq r (.notAhead p)) pl ↔ q ∈ run r pl ∧ q.rest.head?.any p = false := by
  simp only [run, List.mem_flatMap]
  constructor
  · rintro ⟨q', hq', hq⟩
    split at hq
    · cases hq
    · rename_i h
      rw [List.mem_singleton] at hq
      subst hq
      exact ⟨hq', Bool.not_eq_true _ ▸ h⟩
  · rintro ⟨hq, hahead⟩
    refine ⟨q, hq, ?_⟩
    rw [hahead]
    exact List.mem_singleton_self q

/-! ## §2  Places -/

/-- The place behind `m`. -/
def Place.Behind (pl : Place α) (m : List α) (q : Place α) : Prop :=
  pl.rest = m ++ q.rest ∧ q.before = m.getLast?.or pl.before

theorem Place.Behind.refl (pl : Place α) : pl.Behind [] pl := ⟨rfl, rfl⟩

theorem Place.Behind.trans {pl q q' : Place α} {m m' : List α} (h : pl.Behind m q)
    (h' : q.Behind m' q') : pl.Behind (m ++ m') q' := by
  constructor
  · rw [h.1, h'.1, List.append_assoc]
  · rw [h'.2, h.2, List.getLast?_append, Option.or_assoc]

/-- A match leads to the place behind it. -/
theorem behind_of_run (r : Regex α) {pl q : Place α} (h : q ∈ run r pl) :
    ∃ m, pl.Behind m q ∧ Matches r m := by
  induction r generalizing pl q with
  | symbol p =>
      obtain ⟨before, rest⟩ := pl
      cases rest with
      | nil => cases h
      | cons a l =>
          simp only [run] at h
          split at h
          · rename_i hp
            rw [List.mem_singleton] at h
            subst h
            exact ⟨[a], ⟨rfl, rfl⟩, .symbol hp⟩
          · cases h
  | seq r s ihr ihs =>
      obtain ⟨q', hq', hend⟩ := List.mem_flatMap.mp h
      obtain ⟨m, hm, hmatch⟩ := ihr hq'
      obtain ⟨m', hm', hmatch'⟩ := ihs hend
      exact ⟨m ++ m', hm.trans hm', .seq hmatch hmatch'⟩
  | alt r s ihr ihs =>
      rcases List.mem_append.mp h with h | h
      · obtain ⟨m, hm, hmatch⟩ := ihr h
        exact ⟨m, hm, .altLeft hmatch⟩
      · obtain ⟨m, hm, hmatch⟩ := ihs h
        exact ⟨m, hm, .altRight hmatch⟩
  | star r ihr =>
      induction hlen : pl.rest.length using Nat.strongRecOn generalizing pl with
      | _ n ih =>
          rcases mem_run_star.mp h with rfl | ⟨q₁, hq₁, hlt, hmore⟩
          · exact ⟨[], .refl _, .starNil⟩
          · obtain ⟨m, hm, hmatch⟩ := ihr hq₁
            obtain ⟨m', hm', hmatch'⟩ := ih _ (hlen ▸ hlt) hmore rfl
            exact ⟨m ++ m', hm.trans hm', .starCons hmatch hmatch'⟩
  | notBehind p =>
      simp only [run] at h
      split at h
      · cases h
      · rw [List.mem_singleton] at h
        subst h
        exact ⟨[], .refl _, .notBehind⟩
  | notAhead p =>
      simp only [run] at h
      split at h
      · cases h
      · rw [List.mem_singleton] at h
        subst h
        exact ⟨[], .refl _, .notAhead⟩

/-- A literal takes its symbols one by one. -/
theorem matches_literal {ps : List (α → Bool)} {m : List α} (h : Matches (Regex.literal ps r) m) :
    ∃ l m', m = l ++ m' ∧ List.Forall₂ (fun p a => p a = true) ps l ∧ Matches r m' := by
  induction ps generalizing m with
  | nil => exact ⟨[], m, rfl, .nil, h⟩
  | cons p ps ih =>
      cases h with
      | seq hp hmore =>
          cases hp with
          | symbol ha =>
              obtain ⟨l, m', rfl, hl, hm'⟩ := ih hmore
              exact ⟨_ :: l, m', rfl, .cons ha hl, hm'⟩

/-- No match is empty. -/
def Consuming (r : Regex α) : Prop := ∀ m, Matches r m → m ≠ []

theorem Needs.consuming {P : α → Prop} (h : Needs P r) : Consuming r := by
  rintro m hm rfl
  obtain ⟨a, ha, -⟩ := h.exists_mem hm
  cases ha

theorem Consuming.length_lt (h : Consuming r) {pl q : Place α} (hq : q ∈ run r pl) :
    q.rest.length < pl.rest.length := by
  obtain ⟨m, hm, hmatch⟩ := behind_of_run r hq
  have hpos := List.length_pos_iff.mpr (h m hmatch)
  rw [hm.1, List.length_append]
  omega

/-- Repetitions one after the other are one repetition. -/
theorem run_plus_trans (h : Consuming r) {pl q q' : Place α} (hq : q ∈ run (Regex.plus r) pl)
    (hq' : q' ∈ run (Regex.plus r) q) : q' ∈ run (Regex.plus r) pl := by
  obtain ⟨q₁, hq₁, hend⟩ := List.mem_flatMap.mp hq
  obtain ⟨q₂, hq₂, hend'⟩ := List.mem_flatMap.mp hq'
  have hmore : q' ∈ run (.star r) q := mem_run_star.mpr (Or.inr ⟨q₂, hq₂, h.length_lt hq₂, hend'⟩)
  exact List.mem_flatMap.mpr ⟨q₁, hq₁, run_star_trans hend hmore⟩

/-- A repetition of one or more is one match, and possibly a further repetition. -/
theorem mem_run_plus (h : Consuming r) {pl q : Place α} : q ∈ run (Regex.plus r) pl ↔
    ∃ q' ∈ run r pl, q = q' ∨ q ∈ run (Regex.plus r) q' := by
  show q ∈ (run r pl).flatMap (run (.star r)) ↔ _
  rw [List.mem_flatMap]
  refine exists_congr fun q' => and_congr_right fun _ => ?_
  rw [mem_run_star]
  refine or_congr_right ?_
  constructor
  · rintro ⟨q₁, hq₁, -, hmore⟩
    exact List.mem_flatMap.mpr ⟨q₁, hq₁, hmore⟩
  · intro hq
    obtain ⟨q₁, hq₁, hmore⟩ := List.mem_flatMap.mp hq
    exact ⟨q₁, hq₁, h.length_lt hq₁, hmore⟩

theorem consuming_symbol (p : α → Bool) : Consuming (.symbol p) := by
  intro m hm
  cases hm
  exact List.cons_ne_nil _ _

/-- A repetition of a symbol may end behind any of the symbols that it takes. -/
theorem mem_run_plus_symbol {p : α → Bool} {m : List α} (hm : m ≠ []) (h : ∀ a ∈ m, p a = true)
    (before : Option α) (l : List α) :
    ⟨m.getLast?.or before, l⟩ ∈ run (Regex.plus (.symbol p)) ⟨before, m ++ l⟩ := by
  induction m generalizing before with
  | nil => exact absurd rfl hm
  | cons a m ih =>
      refine (mem_run_plus (consuming_symbol p)).mpr ⟨⟨some a, m ++ l⟩, ?_, ?_⟩
      · simp only [run, List.cons_append]
        rw [if_pos (h a List.mem_cons_self)]
        exact List.mem_singleton_self _
      · rw [show (a :: m).getLast?.or before = m.getLast?.or (some a) by
          rw [List.getLast?_cons]; cases m.getLast? <;> rfl]
        by_cases hnil : m = []
        · subst hnil
          exact .inl rfl
        · exact .inr (ih hnil (fun b hb => h b (List.mem_cons_of_mem a hb)) (some a))

/-! ### Where the first match ends -/

/-- The first match goes on as long as there is a symbol of `p`. -/
def Greedy (p : α → Bool) (r : Regex α) : Prop :=
  ∀ pl q, (run r pl).head? = some q → q.rest.head?.any p = false

variable {p : α → Bool}

theorem greedy_star_symbol (p : α → Bool) : Greedy p (.star (.symbol p)) := by
  intro pl q hq
  obtain ⟨q', hq', hend⟩ : Ends (.star (.symbol p)) pl fun q => q.rest.head?.any p = false := by
    refine Ends.star (I := fun _ => True) ?_ trivial
    rintro ⟨before, rest⟩ -
    cases rest with
    | nil => exact Or.inl ⟨rfl, rfl⟩
    | cons a l =>
        by_cases ha : p a = true
        · right
          exact Ends.symbol ha ⟨trivial, Nat.lt_succ_self _⟩
        · rw [Bool.not_eq_true] at ha
          refine Or.inl ⟨run_symbol_eq_nil ?_, ha⟩
          rintro a' ⟨⟩
          exact ha
  rw [hq] at hq'
  cases hq'
  exact hend

theorem Greedy.seq (hs : Greedy p s) : Greedy p (.seq r s) := by
  intro pl q hq
  simp only [run, List.head?_flatMap] at hq
  obtain ⟨q', -, hq'⟩ := List.exists_of_findSome?_eq_some hq
  exact hs q' q hq'

/-- A repetition of greedy matches behind a greedy match. -/
theorem Greedy.seq_star (hr : Greedy p r) (hs : Greedy p s) (hcons : Consuming s) :
    Greedy p (.seq r (.star s)) := by
  have hstar : ∀ (n : ℕ) (pl q : Place α), pl.rest.length = n → pl.rest.head?.any p = false →
      (run (.star s) pl).head? = some q → q.rest.head?.any p = false := by
    intro n
    induction n using Nat.strongRecOn with
    | _ n ih =>
        intro pl q hlen hpl hq
        cases hfirst : (run s pl).head? with
        | none =>
            rw [head?_run_star_nil (List.head?_eq_none_iff.mp hfirst)] at hq
            cases hq
            exact hpl
        | some q' =>
            have hlt := hcons.length_lt (List.mem_of_head? hfirst)
            rw [head?_run_star_cons hfirst hlt] at hq
            exact ih _ (hlen ▸ hlt) q' q rfl (hs pl q' hfirst) hq
  intro pl q hq
  cases hfirst : run r pl with
  | nil =>
      simp only [run, hfirst, List.flatMap_nil, List.head?_nil] at hq
      cases hq
  | cons q' qs =>
      have hhead : (run r pl).head? = some q' := by rw [hfirst]; rfl
      have hrest : (run (.seq r (.star s)) pl).head? = (run (.star s) q').head? := by
        show ((run r pl).flatMap (run (.star s))).head? = _
        rw [hfirst, List.flatMap_cons, List.head?_append_of_ne_nil _ (run_star_ne_nil s q')]
      rw [hrest] at hq
      exact hstar _ q' q rfl (hr pl q' hhead) hq

/-! ## §3  Stretches -/

/-- The stretch up to the first match, and those behind each match. -/
def cutFrom (r : Regex α) : ℕ → Place α → List α × List (List α)
  | 0, pl => (pl.rest, [])
  | n + 1, pl =>
      match pl.rest with
      | [] => ([], [])
      | a :: l =>
          match (run r pl).head? with
          | some q =>
              if q.rest.length < pl.rest.length then
                ([], (cutFrom r n q).1 :: (cutFrom r n q).2)
              else (a :: (cutFrom r n ⟨some a, l⟩).1, (cutFrom r n ⟨some a, l⟩).2)
          | none => (a :: (cutFrom r n ⟨some a, l⟩).1, (cutFrom r n ⟨some a, l⟩).2)

/-- The stretches of a text that the matches leave, in their order. -/
def cut (r : Regex α) (text : List α) : List (List α) :=
  (cutFrom r text.length ⟨none, text⟩).1 :: (cutFrom r text.length ⟨none, text⟩).2

theorem cutFrom_nil (r : Regex α) (n : ℕ) {pl : Place α} (h : pl.rest = []) :
    cutFrom r n pl = ([], []) := by
  cases n with
  | zero => rw [cutFrom, h]
  | succ n =>
      rw [cutFrom]
      simp only [h]

/-- At a place without a match the scan goes on with the next symbol. -/
theorem cutFrom_skip (n : ℕ) {before : Option α} {a : α} {l : List α}
    (h : run r ⟨before, a :: l⟩ = []) : cutFrom r (n + 1) ⟨before, a :: l⟩ =
      (a :: (cutFrom r n ⟨some a, l⟩).1, (cutFrom r n ⟨some a, l⟩).2) := by
  rw [cutFrom]
  simp only [h, List.head?_nil]

theorem cutFrom_match (hr : Consuming r) (n : ℕ) {pl q : Place α} (h : (run r pl).head? = some q) :
    cutFrom r (n + 1) pl = ([], (cutFrom r n q).1 :: (cutFrom r n q).2) := by
  have hlt := hr.length_lt (List.mem_of_head? h)
  obtain ⟨before, rest⟩ := pl
  cases rest with
  | nil => cases hlt
  | cons a l =>
      rw [cutFrom]
      simp only [h, if_pos hlt]

theorem subFrom_skip (repl : List α) (n : ℕ) {before : Option α} {a : α} {l : List α}
    (h : run r ⟨before, a :: l⟩ = []) :
    subFrom r repl (n + 1) ⟨before, a :: l⟩ = a :: subFrom r repl n ⟨some a, l⟩ := by
  rw [subFrom]
  simp only [h, List.head?_nil]

theorem subFrom_match (hr : Consuming r) (repl : List α) (n : ℕ) {pl q : Place α}
    (h : (run r pl).head? = some q) :
    subFrom r repl (n + 1) pl = repl ++ subFrom r repl n q := by
  have hlt := hr.length_lt (List.mem_of_head? h)
  obtain ⟨before, rest⟩ := pl
  cases rest with
  | nil => cases hlt
  | cons a l =>
      rw [subFrom]
      simp only [h, if_pos hlt]

/-- The scan at a place with enough fuel: the end, a symbol that is left, or a match. -/
theorem scan_cases (hr : Consuming r) {Q : ℕ → Place α → Prop}
    (hend : ∀ n before, Q n ⟨before, []⟩)
    (hskip : ∀ n before a l, run r ⟨before, a :: l⟩ = [] → Q n ⟨some a, l⟩ →
      Q (n + 1) ⟨before, a :: l⟩)
    (hmatch : ∀ n pl q, (run r pl).head? = some q → Q n q → Q (n + 1) pl)
    {n : ℕ} {pl : Place α} (hn : pl.rest.length ≤ n) : Q n pl := by
  induction n generalizing pl with
  | zero =>
      obtain ⟨before, rest⟩ := pl
      cases rest with
      | nil => exact hend 0 before
      | cons a l => cases hn
  | succ n ih =>
      obtain ⟨before, rest⟩ := pl
      cases rest with
      | nil => exact hend (n + 1) before
      | cons a l =>
          cases hq : (run r ⟨before, a :: l⟩).head? with
          | none =>
              have hnil := List.head?_eq_none_iff.mp hq
              exact hskip n before a l hnil (ih (Nat.le_of_succ_le_succ hn))
          | some q =>
              have hlt := hr.length_lt (List.mem_of_head? hq)
              exact hmatch n _ q hq (ih (Nat.le_of_lt_succ (Nat.lt_of_lt_of_le hlt hn)))

/-- The text after the substitution, from the stretches. -/
theorem subFrom_eq_cut (hr : Consuming r) (repl : List α) {n : ℕ} {pl : Place α}
    (hn : pl.rest.length ≤ n) : subFrom r repl n pl =
      repl.intercalate ((cutFrom r n pl).1 :: (cutFrom r n pl).2) := by
  have hcons : ∀ (a : α) (c : List α × List (List α)),
      repl.intercalate ((a :: c.1) :: c.2) = a :: repl.intercalate (c.1 :: c.2) := by
    rintro a ⟨g, gs⟩
    cases gs with
    | nil => simp only [List.intercalate_singleton]
    | cons g' gs => simp only [List.intercalate_cons_cons, List.cons_append]
  refine scan_cases hr (Q := fun n pl => subFrom r repl n pl =
    repl.intercalate ((cutFrom r n pl).1 :: (cutFrom r n pl).2)) ?_ ?_ ?_ hn
  · intro n before
    rw [subFrom_nil r repl n rfl, cutFrom_nil r n rfl, List.intercalate_singleton]
  · intro n before a l hnil ih
    rw [subFrom_skip repl n hnil, cutFrom_skip n hnil, hcons, ih]
  · intro n pl q hq ih
    rw [subFrom_match hr repl n hq, cutFrom_match hr n hq, List.intercalate_cons_cons, ih]
    rfl

theorem sub_eq_cut (hr : Consuming r) (repl text : List α) :
    sub r repl text = repl.intercalate (cut r text) :=
  subFrom_eq_cut hr repl (Nat.le_refl _)

/-! ## §4  Where a stretch stands -/

/-- The symbol before a place that lies behind `m`. -/
def Place.lastOf (pl : Place α) (m : List α) : Option α := m.getLast?.or pl.before

/-- No match begins in `g`, which stands between `x` and `y`; a match ends where it begins,
unless the text begins there, and one begins where it ends, unless the text ends there. -/
structure Gap (r : Regex α) (pl : Place α) (x g y : List α) : Prop where
  split : pl.rest = x ++ g ++ y
  unmatched : ∀ a b, g = a ++ b → b ≠ [] → run r ⟨pl.lastOf (x ++ a), b ++ y⟩ = []
  start : x = [] ∨ ∃ pl', (run r pl').head? = some ⟨pl.lastOf x, g ++ y⟩
  stop : y = [] ∨ run r ⟨pl.lastOf (x ++ g), y⟩ ≠ []

theorem lastOf_cons (before : Option α) (a : α) (l x : List α) :
    Place.lastOf ⟨before, a :: l⟩ (a :: x) = Place.lastOf ⟨some a, l⟩ x := by
  unfold Place.lastOf
  rw [List.getLast?_cons]
  cases x.getLast? <;> rfl

theorem Place.Behind.lastOf_append {pl q : Place α} {m : List α} (h : pl.Behind m q)
    (x : List α) : pl.lastOf (m ++ x) = q.lastOf x := by
  unfold Place.lastOf
  rw [List.getLast?_append, Option.or_assoc, h.2]

theorem Gap.none {pl : Place α} (h : pl.rest = []) : Gap r pl [] [] [] := by
  refine ⟨h, ?_, Or.inl rfl, Or.inl rfl⟩
  intro a b hg hb
  exact absurd (List.append_eq_nil_iff.mp hg.symm).2 hb

/-- A symbol more in the first stretch. -/
theorem Gap.leave {before : Option α} {a : α} {l g y : List α}
    (h : Gap r ⟨some a, l⟩ [] g y) (hnil : run r ⟨before, a :: l⟩ = []) :
    Gap r ⟨before, a :: l⟩ [] (a :: g) y := by
  have hl : l = g ++ y := h.split
  refine ⟨congrArg (a :: ·) hl, ?_, Or.inl rfl, ?_⟩
  · intro a' b hg hb
    rw [List.nil_append]
    cases a' with
    | nil =>
        have hb' : b = a :: g := hg.symm
        rw [hb', List.cons_append, ← hl]
        exact hnil
    | cons a₀ a' =>
        rw [List.cons_append, List.cons.injEq] at hg
        obtain ⟨rfl, hg⟩ := hg
        rw [lastOf_cons]
        exact h.unmatched a' b hg hb
  · rcases h.stop with hy | hy
    · exact Or.inl hy
    · right
      rw [List.nil_append] at hy ⊢
      rw [lastOf_cons]
      exact hy

theorem Gap.skip {before : Option α} {a : α} {l x g y : List α} (h : Gap r ⟨some a, l⟩ x g y)
    (hx : x ≠ []) : Gap r ⟨before, a :: l⟩ (a :: x) g y := by
  refine ⟨congrArg (a :: ·) h.split, ?_, ?_, ?_⟩
  · intro a' b hg hb
    rw [List.cons_append, lastOf_cons]
    exact h.unmatched a' b hg hb
  · right
    rw [lastOf_cons]
    exact h.start.resolve_left hx
  · rw [List.cons_append, lastOf_cons]
    exact h.stop

/-- A stretch behind a match. -/
theorem Gap.behind {pl q : Place α} {m x g y : List α} (h : Gap r q x g y)
    (hm : pl.Behind m q) (hq : (run r pl).head? = some q) : Gap r pl (m ++ x) g y := by
  refine ⟨?_, ?_, ?_, ?_⟩
  · rw [hm.1, h.split, List.append_assoc, List.append_assoc, List.append_assoc]
  · intro a b hg hb
    rw [List.append_assoc, hm.lastOf_append]
    exact h.unmatched a b hg hb
  · right
    rw [hm.lastOf_append]
    rcases h.start with rfl | hstart
    · refine ⟨pl, ?_⟩
      have hplace : q = ⟨q.lastOf [], g ++ y⟩ := by
        obtain ⟨before, rest⟩ := q
        exact congrArg (Place.mk before) h.split
      rw [← hplace]
      exact hq
    · exact hstart
  · rw [List.append_assoc, hm.lastOf_append]
    exact h.stop

theorem gaps_cutFrom (hr : Consuming r) {n : ℕ} {pl : Place α} (hn : pl.rest.length ≤ n) :
    (∃ y, Gap r pl [] (cutFrom r n pl).1 y) ∧
      ∀ g ∈ (cutFrom r n pl).2, ∃ x y, x ≠ [] ∧ Gap r pl x g y := by
  refine scan_cases hr (Q := fun n pl => (∃ y, Gap r pl [] (cutFrom r n pl).1 y) ∧
    ∀ g ∈ (cutFrom r n pl).2, ∃ x y, x ≠ [] ∧ Gap r pl x g y) ?_ ?_ ?_ hn
  · intro n before
    rw [cutFrom_nil r n rfl]
    exact ⟨⟨[], .none rfl⟩, nofun⟩
  · rintro n before a l hnil ⟨⟨y, hfirst⟩, hothers⟩
    rw [cutFrom_skip n hnil]
    refine ⟨⟨y, hfirst.leave hnil⟩, ?_⟩
    intro g hg
    obtain ⟨x, y, hx, hgap⟩ := hothers g hg
    exact ⟨a :: x, y, List.cons_ne_nil a x, hgap.skip hx⟩
  · rintro n pl q hq ⟨⟨y, hfirst⟩, hothers⟩
    rw [cutFrom_match hr n hq]
    have hmem := List.mem_of_head? hq
    obtain ⟨m, hm, hmatch⟩ := behind_of_run r hmem
    refine ⟨⟨pl.rest, rfl, ?_, Or.inl rfl, Or.inr ?_⟩, ?_⟩
    · intro a b hg hb
      exact absurd (List.append_eq_nil_iff.mp hg.symm).2 hb
    · exact List.ne_nil_of_mem hmem
    · intro g hg
      rcases List.mem_cons.mp hg with rfl | hg
      · exact ⟨m ++ [], y, by rw [List.append_nil]; exact hr m hmatch, hfirst.behind hm hq⟩
      · obtain ⟨x, y, hx, hgap⟩ := hothers g hg
        exact ⟨m ++ x, y, List.append_ne_nil_of_left_ne_nil (hr m hmatch) x, hgap.behind hm hq⟩

theorem gap_of_mem_cut (hr : Consuming r) {text g : List α} (hg : g ∈ cut r text) :
    ∃ x y, Gap r ⟨none, text⟩ x g y := by
  obtain ⟨⟨y, hfirst⟩, hothers⟩ :=
    gaps_cutFrom hr (show (Place.mk none text).rest.length ≤ text.length from Nat.le_refl _)
  rcases List.mem_cons.mp hg with rfl | hg
  · exact ⟨[], y, hfirst⟩
  · obtain ⟨x, y, -, hgap⟩ := hothers g hg
    exact ⟨x, y, hgap⟩

/-! ## §5  Texts that are left as they are -/

/-- No match begins at the place or behind it. -/
def UnmatchedAt (r : Regex α) (pl : Place α) : Prop :=
  ∀ a b, pl.rest = a ++ b → b ≠ [] → run r ⟨pl.lastOf a, b⟩ = []

theorem unmatchedAt_nil (r : Regex α) (before : Option α) : UnmatchedAt r ⟨before, []⟩ :=
  fun _ _ h hb => absurd (List.append_eq_nil_iff.mp h.symm).2 hb

theorem unmatchedAt_cons {before : Option α} {a : α} {l : List α} :
    UnmatchedAt r ⟨before, a :: l⟩ ↔ run r ⟨before, a :: l⟩ = [] ∧ UnmatchedAt r ⟨some a, l⟩ := by
  constructor
  · intro h
    refine ⟨h [] (a :: l) rfl (List.cons_ne_nil _ _), ?_⟩
    intro x b hx hb
    rw [← lastOf_cons before]
    exact h (a :: x) b (congrArg (a :: ·) hx) hb
  · rintro ⟨hnil, h⟩ x b hx hb
    cases x with
    | nil =>
        have hb' : b = a :: l := hx.symm
        rw [hb']
        exact hnil
    | cons a₀ x =>
        rw [List.cons_append, List.cons.injEq] at hx
        obtain ⟨rfl, hx⟩ := hx
        rw [lastOf_cons]
        exact h x b hx hb

/-- Symbols that no match begins with are passed over. -/
theorem unmatchedAt_append {x : List α} (h : ∀ a ∈ x, ∀ before l, run r ⟨before, a :: l⟩ = [])
    {before : Option α} {l : List α} :
    UnmatchedAt r ⟨before, x ++ l⟩ ↔ UnmatchedAt r ⟨x.getLast?.or before, l⟩ := by
  induction x generalizing before with
  | nil => exact Iff.rfl
  | cons a x ih =>
      rw [List.cons_append, unmatchedAt_cons, and_iff_right (h a List.mem_cons_self _ _),
        ih fun b hb => h b (List.mem_cons_of_mem a hb)]
      exact Iff.of_eq (congrArg (fun b => UnmatchedAt r ⟨b, l⟩) (lastOf_cons before a l x).symm)

/-- No match begins in the text. -/
def Unmatched (r : Regex α) (text : List α) : Prop :=
  ∀ a b, text = a ++ b → b ≠ [] → run r ⟨a.getLast?, b⟩ = []

theorem unmatched_iff (r : Regex α) (text : List α) :
    Unmatched r text ↔ UnmatchedAt r ⟨none, text⟩ := by
  unfold Unmatched UnmatchedAt Place.lastOf
  simp only [Option.or_none]

theorem Avoids.not_mem {d : α} (h : Avoids d r) {m : List α} (hm : Matches r m) : d ∉ m := by
  induction hm with
  | symbol ha =>
      rw [List.mem_singleton]
      rintro rfl
      rw [show _ = false from h] at ha
      cases ha
  | seq _ _ ihl ihm =>
      rw [List.mem_append, not_or]
      exact ⟨ihl h.1, ihm h.2⟩
  | altLeft _ ih => exact ih h.1
  | altRight _ ih => exact ih h.2
  | starNil | notBehind | notAhead => exact List.not_mem_nil
  | starCons _ _ ihl ihm =>
      rw [List.mem_append, not_or]
      exact ⟨ihl h, ihm h⟩

section Count

variable [DecidableEq α] {d : α}

theorem count_subFrom (hr : Consuming r) (hd : Avoids d r) (repl : List α) {n : ℕ} {pl : Place α}
    (hn : pl.rest.length ≤ n) : (subFrom r repl n pl).count d =
      pl.rest.count d + (cutFrom r n pl).2.length * repl.count d := by
  refine scan_cases hr (Q := fun n pl => (subFrom r repl n pl).count d =
    pl.rest.count d + (cutFrom r n pl).2.length * repl.count d) ?_ ?_ ?_ hn
  · intro n before
    rw [subFrom_nil r repl n rfl, cutFrom_nil r n rfl]
    simp
  · intro n before a l hnil ih
    rw [subFrom_skip repl n hnil, cutFrom_skip n hnil]
    simp only [List.count_cons, ih]
    omega
  · intro n pl q hq ih
    rw [subFrom_match hr repl n hq, cutFrom_match hr n hq]
    obtain ⟨m, hm, hmatch⟩ := behind_of_run r (List.mem_of_head? hq)
    rw [hm.1, List.count_append, List.count_append, ih,
      List.count_eq_zero_of_not_mem (hd.not_mem hmatch), List.length_cons, Nat.succ_mul]
    omega

/-- Each match that is replaced adds what `d` the replacement has. -/
theorem count_sub (hr : Consuming r) (hd : Avoids d r) (repl text : List α) :
    (sub r repl text).count d = text.count d + (cut r text).tail.length * repl.count d :=
  count_subFrom hr hd repl (Nat.le_refl _)

end Count

/-- One stretch is left exactly of a text in which no match begins. -/
theorem tail_cut_eq_nil_iff (hr : Consuming r) (text : List α) :
    (cut r text).tail = [] ↔ Unmatched r text := by
  rw [unmatched_iff]
  refine scan_cases hr (Q := fun n pl => (cutFrom r n pl).2 = [] ↔ UnmatchedAt r pl) ?_ ?_ ?_
    (show (Place.mk none text).rest.length ≤ text.length from Nat.le_refl _)
  · intro n before
    rw [cutFrom_nil r n rfl]
    exact iff_of_true rfl (unmatchedAt_nil r before)
  · intro n before a l hnil ih
    rw [cutFrom_skip n hnil, ih, unmatchedAt_cons, and_iff_right hnil]
  · intro n pl q hq _
    rw [cutFrom_match hr n hq]
    refine iff_of_false (List.cons_ne_nil _ _) fun h => ?_
    have hmem := List.mem_of_head? hq
    have hlt := hr.length_lt hmem
    have hnil : run r pl = [] := h [] pl.rest rfl (List.ne_nil_of_length_pos (by omega))
    rw [hnil] at hmem
    cases hmem

theorem Unmatched.sub_eq (hr : Consuming r) {text : List α} (h : Unmatched r text)
    (repl : List α) : sub r repl text = text := by
  have hfrom : ∀ {n : ℕ} {pl : Place α}, pl.rest.length ≤ n → (cutFrom r n pl).2 = [] →
      (cutFrom r n pl).1 = pl.rest := by
    intro n pl hn
    refine scan_cases hr (Q := fun n pl => (cutFrom r n pl).2 = [] →
      (cutFrom r n pl).1 = pl.rest) ?_ ?_ ?_ hn
    · intro n before _
      rw [cutFrom_nil r n rfl]
    · intro n before a l hnil ih hnone
      rw [cutFrom_skip n hnil] at hnone ⊢
      exact congrArg (a :: ·) (ih hnone)
    · intro n pl q hq _ hnone
      rw [cutFrom_match hr n hq] at hnone
      cases hnone
  have hnone : (cutFrom r text.length ⟨none, text⟩).2 = [] := (tail_cut_eq_nil_iff hr text).mpr h
  rw [sub_eq_cut hr, cut, hnone, List.intercalate_singleton]
  exact hfrom (show (Place.mk none text).rest.length ≤ text.length from Nat.le_refl _) hnone

/-! ## §6  Texts made of stretches -/

theorem intercalate_append (sep : List α) {gs hs : List (List α)} (hgs : gs ≠ []) (hhs : hs ≠ []) :
    sep.intercalate (gs ++ hs) = sep.intercalate gs ++ sep ++ sep.intercalate hs := by
  induction gs with
  | nil => exact absurd rfl hgs
  | cons g gs ih =>
      by_cases hnil : gs = []
      · subst hnil
        rw [List.singleton_append, List.intercalate_cons_of_ne_nil hhs, List.intercalate_singleton]
      · have hne : gs ++ hs ≠ [] := List.append_ne_nil_of_left_ne_nil hnil hs
        rw [List.cons_append, List.intercalate_cons_of_ne_nil hne,
          List.intercalate_cons_of_ne_nil hnil, ih hnil]
        simp only [List.append_assoc]

/-- Stretches that are themselves made of stretches. -/
theorem intercalate_flatMap (sep : List α) {f : List α → List (List α)} (hf : ∀ g, f g ≠ [])
    (gs : List (List α)) :
    sep.intercalate (gs.flatMap f) = sep.intercalate (gs.map fun g => sep.intercalate (f g)) := by
  induction gs with
  | nil => rfl
  | cons g gs ih =>
      by_cases hnil : gs = []
      · subst hnil
        simp only [List.flatMap_cons, List.flatMap_nil, List.append_nil, List.map_cons,
          List.map_nil, List.intercalate_singleton]
      · have hflat : gs.flatMap f ≠ [] := by
          obtain ⟨g', gs', rfl⟩ := List.exists_cons_of_ne_nil hnil
          rw [List.flatMap_cons]
          exact List.append_ne_nil_of_left_ne_nil (hf g') _
        have hmap : (gs.map fun g => sep.intercalate (f g)) ≠ [] :=
          fun h => hnil (List.map_eq_nil_iff.mp h)
        rw [List.flatMap_cons, intercalate_append sep (hf g) hflat, List.map_cons,
          List.intercalate_cons_of_ne_nil hmap, ih]

/-- A pattern that avoids both ends of a separator, and leaves what is between, is substituted
in each stretch on its own. -/
theorem sub_intercalate [DecidableEq α] {d d' : α} (hd : Avoids d r) (hd' : Avoids d' r)
    {repl inner : List α} (hinner : sub r repl inner = inner) (gs : List (List α)) :
    sub r repl ((d :: inner ++ [d']).intercalate gs) =
      (d :: inner ++ [d']).intercalate (gs.map (sub r repl)) := by
  induction gs with
  | nil => rfl
  | cons g gs ih =>
      by_cases hnil : gs = []
      · subst hnil
        simp only [List.map_cons, List.map_nil, List.intercalate_singleton]
      · have hmap : gs.map (sub r repl) ≠ [] := fun h => hnil (List.map_eq_nil_iff.mp h)
        rw [List.intercalate_cons_of_ne_nil hnil, List.map_cons,
          List.intercalate_cons_of_ne_nil hmap, ← ih]
        simp only [List.append_assoc, List.cons_append, List.nil_append]
        rw [sub_delimiter hd, sub_delimiter hd', hinner]

end OpencodeA2a.Pattern
