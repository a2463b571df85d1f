import Mathlib.Data.List.Basic
import Mathlib.Data.List.Forall2
import Mathlib.Tactic.Cases

/-!
# Patterns and what is substituted for their matches

Regular expressions with greedy repetition and look-around of one symbol, matched by
backtracking: `run` lists the ways to match at a place in the order in which they are
tried, and the first is the match. `sub` replaces the matches of a text from left to
right.
-/

namespace OpencodeA2a.Pattern

variable {α : Type}

/-! ## §1  Matching -/

inductive Regex (α : Type) where
  | symbol (p : α → Bool)
  | seq (r s : Regex α)
  | alt (r s : Regex α)
  /-- as often as possible -/
  | star (r : Regex α)
  /-- the symbol before, if there is one, does not satisfy `p` -/
  | notBehind (p : α → Bool)
  /-- the symbol that follows, if there is one, does not satisfy `p` -/
  | notAhead (p : α → Bool)

/-- A place in a text: the symbol before it, and what follows. -/
structure Place (α : Type) where
  before : Option α
  rest : List α

/-- Repetitions as long as they consume something, longer ones first. -/
def iterate (f : Place α → List (Place α)) : ℕ → Place α → List (Place α)
  | 0, pl => [pl]
  | n + 1, pl =>
      ((f pl).filter fun q => q.rest.length < pl.rest.length).flatMap (iterate f n) ++ [pl]

/-- The places where a match may end, in the order in which they are tried. -/
def run : Regex α → Place α → List (Place α)
  | .symbol p, pl =>
      match pl.rest with
      | [] => []
      | a :: l => if p a then [⟨some a, l⟩] else []
  | .seq r s, pl => (run r pl).flatMap (run s)
  | .alt r s, pl => run r pl ++ run s pl
  | .star r, pl => iterate (run r) pl.rest.length pl
  | .notBehind p, pl => if pl.before.any p then [] else [pl]
  | .notAhead p, pl => if pl.rest.head?.any p then [] else [pl]

/-- The matches replaced, with `n` at least the length of the text. -/
def subFrom (r : Regex α) (repl : List α) : ℕ → Place α → List α
  | 0, pl => pl.rest
  | n + 1, pl =>
      match pl.rest with
      | [] => []
      | a :: l =>
          match (run r pl).head? with
          | some q =>
              if q.rest.length < pl.rest.length then repl ++ subFrom r repl n q
              else a :: subFrom r repl n ⟨some a, l⟩
          | none => a :: subFrom r repl n ⟨some a, l⟩

/-- The text with every match of `r` replaced, for an `r` that matches no empty text. -/
def sub (r : Regex α) (repl text : List α) : List α := subFrom r repl text.length ⟨none, text⟩

def Regex.plus (r : Regex α) : Regex α := .seq r (.star r)

/-- A text symbol by symbol, with what follows it. -/
def Regex.literal (ps : List (α → Bool)) (r : Regex α) : Regex α :=
  ps.foldr (fun p r => .seq (.symbol p) r) r

/-! ## §2  The text that was matched -/

/-- What `r` matches, look-around aside. -/
inductive Matches : Regex α → List α → Prop
  | symbol {p : α → Bool} {a : α} : p a = true → Matches (.symbol p) [a]
  | seq {r s : Regex α} {l m : List α} : Matches r l → Matches s m → Matches (.seq r s) (l ++ m)
  | altLeft {r s : Regex α} {l : List α} : Matches r l → Matches (.alt r s) l
  | altRight {r s : Regex α} {l : List α} : Matches s l → Matches (.alt r s) l
  | starNil {r : Regex α} : Matches (.star r) []
  | starCons {r : Regex α} {l m : List α} :
      Matches r l → Matches (.star r) m → Matches (.star r) (l ++ m)
  | notBehind {p : α → Bool} : Matches (.notBehind p) []
  | notAhead {p : α → Bool} : Matches (.notAhead p) []

theorem matches_of_iterate {r : Regex α}
    (hr : ∀ pl q, q ∈ run r pl → ∃ m, pl.rest = m ++ q.rest ∧ Matches r m) (n : ℕ)
    {pl q : Place α} (h : q ∈ iterate (run r) n pl) :
    ∃ m, pl.rest = m ++ q.rest ∧ Matches (.star r) m := by
  induction n generalizing pl with
  | zero =>
      rw [iterate, List.mem_singleton] at h
      subst h
      exact ⟨[], rfl, .starNil⟩
  | succ n ih =>
      rw [iterate, List.mem_append] at h
      rcases h with h | h
      · obtain ⟨q', hq', hend⟩ := List.mem_flatMap.mp h
        obtain ⟨m, hm, hmatch⟩ := hr pl q' (List.mem_of_mem_filter hq')
        obtain ⟨m', hm', hmatch'⟩ := ih hend
        refine ⟨m ++ m', ?_, .starCons hmatch hmatch'⟩
        rw [hm, hm', List.append_assoc]
      · rw [List.mem_singleton] at h
        subst h
        exact ⟨[], rfl, .starNil⟩

/-- Every way to match consumes a text of the language. -/
theorem matches_of_run (r : Regex α) {pl q : Place α} (h : q ∈ run r pl) :
    ∃ m, pl.rest = m ++ q.rest ∧ Matches r m := by
  induction r generalizing pl q with
  | symbol p =>
      simp only [run] at h
      split at h
      · cases h
      · rename_i a l hrest
        split at h
        · rename_i hp
          rw [List.mem_singleton] at h
          subst h
          exact ⟨[a], hrest, .symbol hp⟩
        · cases h
  | seq r s ihr ihs =>
      obtain ⟨q', hq', hend⟩ := List.mem_flatMap.mp h
      obtain ⟨m, hm, hmatch⟩ := ihr hq'
      obtain ⟨m', hm', hmatch'⟩ := ihs hend
      refine ⟨m ++ m', ?_, .seq hmatch hmatch'⟩
      rw [hm, hm', List.append_assoc]
  | alt r s ihr ihs =>
      rcases List.mem_append.mp h with h | h
      · obtain ⟨m, hm, hmatch⟩ := ihr h
        exact ⟨m, hm, .altLeft hmatch⟩
      · obtain ⟨m, hm, hmatch⟩ := ihs h
        exact ⟨m, hm, .altRight hmatch⟩
  | star r ihr => exact matches_of_iterate (fun _ _ => ihr) _ h
  | notBehind p =>
      simp only [run] at h
      split at h
      · cases h
      · rw [List.mem_singleton] at h
        subst h
        exact ⟨[], rfl, .notBehind⟩
  | notAhead p =>
      simp only [run] at h
      split at h
      · cases h
      · rw [List.mem_singleton] at h
        subst h
        exact ⟨[], rfl, .notAhead⟩

/-- What holds of each repetition and is kept by appending holds of them together. -/
theorem Matches.of_star {r : Regex α} {Q : List α → Prop} (hnil : Q [])
    (happend : ∀ l m, Q l → Q m → Q (l ++ m)) (hr : ∀ l, Matches r l → Q l) {m : List α}
    (h : Matches (.star r) m) : Q m := by
  generalize hs : Regex.star r = s at h
  induction h with
  | starNil => exact hnil
  | starCons hl _ _ ih =>
      injection hs with hs
      subst hs
      exact happend _ _ (hr _ hl) (ih rfl)
  | _ => cases hs

/-! ## §3  Patterns that need a symbol -/

/-- Every match contains a symbol of `P`. -/
inductive Needs (P : α → Prop) : Regex α → Prop
  | symbol {p : α → Bool} : (∀ a, p a = true → P a) → Needs P (.symbol p)
  | seqLeft {r s : Regex α} : Needs P r → Needs P (.seq r s)
  | seqRight {r s : Regex α} : Needs P s → Needs P (.seq r s)
  | alt {r s : Regex α} : Needs P r → Needs P s → Needs P (.alt r s)

variable {P : α → Prop} {r : Regex α}

theorem Needs.exists_mem (h : Needs P r) {m : List α} (hm : Matches r m) : ∃ a ∈ m, P a := by
  induction h generalizing m with
  | symbol hp =>
      cases hm with
      | symbol ha => exact ⟨_, List.mem_singleton_self _, hp _ ha⟩
  | seqLeft _ ih =>
      cases hm with
      | seq hl _ =>
          obtain ⟨a, ha, hP⟩ := ih hl
          exact ⟨a, List.mem_append_left _ ha, hP⟩
  | seqRight _ ih =>
      cases hm with
      | seq _ hr =>
          obtain ⟨a, ha, hP⟩ := ih hr
          exact ⟨a, List.mem_append_right _ ha, hP⟩
  | alt _ _ ihr ihs =>
      cases hm with
      | altLeft hm => exact ihr hm
      | altRight hm => exact ihs hm

theorem Needs.run_eq_nil (h : Needs P r) {pl : Place α} (hpl : ∀ a ∈ pl.rest, ¬ P a) :
    run r pl = [] := by
  rw [List.eq_nil_iff_forall_not_mem]
  intro q hq
  obtain ⟨m, hm, hmatch⟩ := matches_of_run r hq
  obtain ⟨a, ha, hP⟩ := h.exists_mem hmatch
  exact hpl a (hm ▸ List.mem_append_left _ ha) hP

/-- Nothing is replaced in a text without such a symbol. -/
theorem Needs.sub_eq (h : Needs P r) (repl : List α) {text : List α} (htext : ∀ a ∈ text, ¬ P a) :
    sub r repl text = text := by
  have hfrom : ∀ (n : ℕ) (pl : Place α), (∀ a ∈ pl.rest, ¬ P a) →
      subFrom r repl n pl = pl.rest := by
    intro n
    induction n with
    | zero =>
        intro pl _
        rfl
    | succ n ih =>
        intro pl hpl
        obtain ⟨before, rest⟩ := pl
        cases rest with
        | nil => rfl
        | cons a l =>
            rw [subFrom]
            simp only [h.run_eq_nil hpl, List.head?_nil]
            rw [ih ⟨some a, l⟩ fun b hb => hpl b (List.mem_cons_of_mem _ hb)]
  exact hfrom _ _ htext

/-! ## §4  Texts cut at a symbol that no match contains -/

theorem iterate_fuel {f : Place α → List (Place α)} {n m : ℕ} {pl : Place α}
    (hn : pl.rest.length ≤ n) (hm : pl.rest.length ≤ m) : iterate f n pl = iterate f m pl := by
  -- nothing is shorter than a text without symbols
  have hstop : ∀ (k : ℕ) (pl : Place α), pl.rest.length ≤ 0 → iterate f k pl = [pl] := by
    intro k pl hk
    cases k with
    | zero => rfl
    | succ k =>
        have hnone : (f pl).filter (fun q => q.rest.length < pl.rest.length) = [] := by
          rw [List.filter_eq_nil_iff]
          intro q _ hlt
          have hlt := of_decide_eq_true hlt
          omega
        rw [iterate, hnone]
        rfl
  induction n generalizing m pl with
  | zero => rw [hstop 0 pl hn, hstop m pl hn]
  | succ n ih =>
      cases m with
      | zero => rw [hstop _ pl hm, hstop _ pl hm]
      | succ m =>
          rw [iterate, iterate]
          congr 1
          refine List.flatMap_congr fun q hq => ?_
          have hlt := of_decide_eq_true (List.mem_filter.mp hq).2
          exact ih (by omega) (by omega)

/-- `g` changes places in a way that the pattern does not notice. -/
def Commutes (g : Place α → Place α) (r : Regex α) : Prop :=
  ∀ pl, run r (g pl) = (run r pl).map g

variable {g : Place α → Place α} {r s : Regex α}

theorem Commutes.seq (hr : Commutes g r) (hs : Commutes g s) : Commutes g (.seq r s) := by
  intro pl
  simp only [run]
  rw [hr pl, List.flatMap_map, List.map_flatMap]
  exact List.flatMap_congr fun q _ => hs q

theorem Commutes.alt (hr : Commutes g r) (hs : Commutes g s) : Commutes g (.alt r s) := by
  intro pl
  simp only [run]
  rw [hr pl, hs pl, List.map_append]

theorem Commutes.star (hg : ∀ q pl, (g q).rest.length < (g pl).rest.length ↔
    q.rest.length < pl.rest.length) (hr : Commutes g r) : Commutes g (.star r) := by
  have hiterate : ∀ (n : ℕ) (pl : Place α),
      iterate (run r) n (g pl) = (iterate (run r) n pl).map g := by
    intro n
    induction n with
    | zero =>
        intro pl
        rfl
    | succ n ih =>
        intro pl
        rw [iterate, iterate, hr pl, List.map_append, List.map_flatMap, List.filter_map,
          List.flatMap_map]
        congr 1
        have hsame : (fun q : Place α => decide (q.rest.length < (g pl).rest.length)) ∘ g =
            fun q => decide (q.rest.length < pl.rest.length) := by
          funext q
          exact decide_eq_decide.mpr (hg q pl)
        rw [hsame]
        exact List.flatMap_congr fun q _ => ih q
  intro pl
  simp only [run]
  rw [iterate_fuel (Nat.le_refl _) (Nat.le_add_right _ pl.rest.length), hiterate]
  congr 1
  exact iterate_fuel (Nat.le_add_left _ _) (Nat.le_refl _)

/-- No match of the pattern contains `d`, and look-around takes it for an end of the text. -/
def Avoids (d : α) : Regex α → Prop
  | .symbol p => p d = false
  | .seq r s => Avoids d r ∧ Avoids d s
  | .alt r s => Avoids d r ∧ Avoids d s
  | .star r => Avoids d r
  | .notBehind p => p d = false
  | .notAhead p => p d = false

/-- No match of the pattern contains `d`, and look-ahead takes it for the end of the text. -/
def Stops (d : α) : Regex α → Prop
  | .symbol p => p d = false
  | .seq r s => Stops d r ∧ Stops d s
  | .alt r s => Stops d r ∧ Stops d s
  | .star r => Stops d r
  | .notBehind _ => True
  | .notAhead p => p d = false

variable {d : α}

theorem Avoids.stops (h : Avoids d r) : Stops d r := by
  induction r with
  | symbol p => exact h
  | seq r s ihr ihs => exact ⟨ihr h.1, ihs h.2⟩
  | alt r s ihr ihs => exact ⟨ihr h.1, ihs h.2⟩
  | star r ihr => exact ihr h
  | notBehind p => trivial
  | notAhead p => exact h

/-- The same place in a longer text. -/
def Place.extend (t : List α) (pl : Place α) : Place α := ⟨pl.before, pl.rest ++ t⟩

theorem Stops.commutes_extend (h : Stops d r) (y : List α) :
    Commutes (Place.extend (d :: y)) r := by
  have hlen : ∀ q pl : Place α, (q.extend (d :: y)).rest.length < (pl.extend (d :: y)).rest.length ↔
      q.rest.length < pl.rest.length := by
    intro q pl
    simp only [Place.extend, List.length_append]
    omega
  induction r with
  | symbol p =>
      intro pl
      obtain ⟨before, rest⟩ := pl
      have hp : p d = false := h
      cases rest with
      | nil => simp [run, Place.extend, hp]
      | cons a l =>
          simp only [run, Place.extend, List.cons_append]
          split <;> rfl
  | seq r s ihr ihs => exact (ihr h.1).seq (ihs h.2)
  | alt r s ihr ihs => exact (ihr h.1).alt (ihs h.2)
  | star r ihr => exact (ihr h).star hlen
  | notBehind p =>
      intro pl
      simp only [run]
      rw [apply_ite (List.map _)]
      rfl
  | notAhead p =>
      intro pl
      obtain ⟨before, rest⟩ := pl
      have hp : p d = false := h
      cases rest with
      | nil => simp [run, Place.extend, hp]
      | cons a l =>
          simp only [run]
          rw [apply_ite (List.map _)]
          rfl

section Clear

variable [DecidableEq α]

/-- A place right after `d` taken for the start of a text. -/
def Place.clear (d : α) (pl : Place α) : Place α :=
  ⟨pl.before.filter fun a => a ≠ d, pl.rest⟩

theorem commutes_clear (h : Avoids d r) : Commutes (Place.clear d) r := by
  induction r with
  | symbol p =>
      intro pl
      obtain ⟨before, rest⟩ := pl
      have hp : p d = false := h
      cases rest with
      | nil => rfl
      | cons a l =>
          simp only [run, Place.clear]
          split
          · rename_i ha
            have hne : a ≠ d := by
              rintro rfl
              rw [hp] at ha
              cases ha
            simp [Place.clear, Option.filter, hne]
          · rfl
  | seq r s ihr ihs => exact (ihr h.1).seq (ihs h.2)
  | alt r s ihr ihs => exact (ihr h.1).alt (ihs h.2)
  | star r ihr => exact (ihr h).star fun q pl => Iff.rfl
  | notBehind p =>
      intro pl
      have hp : p d = false := h
      have hany : (pl.before.filter fun a => a ≠ d).any p = pl.before.any p := by
        cases pl.before with
        | none => rfl
        | some a =>
            by_cases ha : a = d
            · subst ha
              simp [Option.filter, hp]
            · simp [Option.filter, ha]
      simp only [run]
      rw [apply_ite (List.map _)]
      show (if (pl.before.filter fun a => a ≠ d).any p then _ else _) = _
      rw [hany]
      rfl
  | notAhead p =>
      intro pl
      simp only [run]
      rw [apply_ite (List.map _)]
      rfl

theorem subFrom_clear (h : Avoids d r) (repl : List α) (n : ℕ) (pl : Place α) :
    subFrom r repl n (pl.clear d) = subFrom r repl n pl := by
  induction n generalizing pl with
  | zero => rfl
  | succ n ih =>
      obtain ⟨before, rest⟩ := pl
      cases rest with
      | nil => rfl
      | cons a l =>
          have hrun := commutes_clear h ⟨before, a :: l⟩
          rw [subFrom, subFrom, hrun, List.head?_map]
          cases (run r ⟨before, a :: l⟩).head? with
          | none => rfl
          | some q =>
              show (if q.rest.length < (a :: l).length then repl ++ subFrom r repl n (q.clear d)
                else _) = if q.rest.length < (a :: l).length then _ else _
              rw [ih q]

end Clear

theorem subFrom_fuel (repl : List α) {n m : ℕ} {pl : Place α} (hn : pl.rest.length ≤ n)
    (hm : pl.rest.length ≤ m) : subFrom r repl n pl = subFrom r repl m pl := by
  induction n generalizing m pl with
  | zero =>
      obtain ⟨before, rest⟩ := pl
      cases rest with
      | nil => cases m <;> rfl
      | cons a l => cases hn
  | succ n ih =>
      obtain ⟨before, rest⟩ := pl
      cases rest with
      | nil => cases m <;> rfl
      | cons a l =>
          cases m with
          | zero => cases hm
          | succ m =>
              have hl : subFrom r repl n ⟨some a, l⟩ = subFrom r repl m ⟨some a, l⟩ :=
                ih (Nat.le_of_succ_le_succ hn) (Nat.le_of_succ_le_succ hm)
              rw [subFrom, subFrom]
              cases (run r ⟨before, a :: l⟩).head? with
              | none => simp only [hl]
              | some q =>
                  simp only [hl]
                  split
                  · rename_i hlt
                    rw [ih (Nat.le_of_lt_succ (Nat.lt_of_lt_of_le hlt hn))
                      (Nat.le_of_lt_succ (Nat.lt_of_lt_of_le hlt hm))]
                  · rfl

/-- The parts of a text before and behind a symbol that the pattern avoids are replaced in
each on its own. -/
theorem sub_delimiter [DecidableEq α] (h : Avoids d r) (repl x y : List α) :
    sub r repl (x ++ d :: y) = sub r repl x ++ d :: sub r repl y := by
  have hfrom : ∀ (n : ℕ) (pl : Place α), (pl.extend (d :: y)).rest.length ≤ n →
      subFrom r repl n (pl.extend (d :: y)) =
        subFrom r repl n pl ++ d :: subFrom r repl n ⟨none, y⟩ := by
    intro n
    induction n with
    | zero =>
        intro pl hpl
        simp [Place.extend] at hpl
    | succ n ih =>
        intro pl hpl
        obtain ⟨before, rest⟩ := pl
        have hrun := h.stops.commutes_extend y ⟨before, rest⟩
        have hlen : rest.length + (y.length + 1) ≤ n + 1 := by
          simpa [Place.extend] using hpl
        have hy : subFrom r repl (n + 1) ⟨none, y⟩ = subFrom r repl n ⟨none, y⟩ :=
          subFrom_fuel repl (show y.length ≤ n + 1 by omega) (show y.length ≤ n by omega)
        rw [hy]
        cases rest with
        | nil =>
            -- nothing is matched at the delimiter
            have hskip : subFrom r repl (n + 1) (Place.extend (d :: y) ⟨before, []⟩) =
                d :: subFrom r repl n ⟨some d, y⟩ := by
              rw [subFrom, hrun, List.head?_map]
              cases hhead : (run r ⟨before, []⟩).head? with
              | none => rfl
              | some q =>
                  show (if (q.rest ++ d :: y).length < (d :: y).length then _ else _) = _
                  rw [if_neg (by rw [List.length_append]; omega)]
            have hclear := subFrom_clear h repl n ⟨some d, y⟩
            have hstart : Place.clear d ⟨some d, y⟩ = ⟨none, y⟩ := by simp [Place.clear]
            rw [hstart] at hclear
            rw [hskip, hclear]
            rfl
        | cons a l =>
            have hl := ih ⟨some a, l⟩ (by simp [Place.extend] at hlen ⊢; omega)
            show subFrom r repl (n + 1) ⟨before, a :: (l ++ d :: y)⟩ = _
            rw [subFrom, subFrom]
            have hrun' : run r ⟨before, a :: (l ++ d :: y)⟩ =
                (run r ⟨before, a :: l⟩).map (Place.extend (d :: y)) := hrun
            rw [hrun', List.head?_map]
            cases (run r ⟨before, a :: l⟩).head? with
            | none => exact congrArg (a :: ·) hl
            | some q =>
                show (if (q.rest ++ d :: y).length < (a :: (l ++ d :: y)).length
                  then repl ++ subFrom r repl n (q.extend (d :: y)) else _) = _
                by_cases hlt : q.rest.length < (a :: l).length
                · rw [if_pos (by simp at hlt ⊢; omega)]
                  simp only [if_pos hlt]
                  rw [ih q (by simp [Place.extend] at hlt hlen ⊢; omega), List.append_assoc]
                · rw [if_neg (by simp at hlt ⊢; omega)]
                  simp only [if_neg hlt]
                  exact congrArg (a :: ·) hl
  have hwhole := hfrom (x ++ d :: y).length ⟨none, x⟩ (Nat.le_refl _)
  unfold sub
  have hx : subFrom r repl (x ++ d :: y).length ⟨none, x⟩ = subFrom r repl x.length ⟨none, x⟩ :=
    subFrom_fuel repl (show x.length ≤ _ by simp) (Nat.le_refl _)
  have hy : subFrom r repl (x ++ d :: y).length ⟨none, y⟩ = subFrom r repl y.length ⟨none, y⟩ :=
    subFrom_fuel repl (show y.length ≤ (x ++ d :: y).length by simp; omega) (Nat.le_refl _)
  rw [← hx, ← hy]
  exact hwhole

/-! ## §5  The first match -/

theorem run_star_ne_nil (r : Regex α) (pl : Place α) : run (.star r) pl ≠ [] := by
  simp only [run]
  cases pl.rest.length with
  | zero => exact List.cons_ne_nil _ _
  | succ n => exact List.append_ne_nil_of_right_ne_nil _ (List.cons_ne_nil _ _)

/-- A repetition goes on from the first way to match once more. -/
theorem head?_run_star_cons {pl q : Place α} (h : (run r pl).head? = some q)
    (hlt : q.rest.length < pl.rest.length) :
    (run (.star r) pl).head? = (run (.star r) q).head? := by
  obtain ⟨qs, hqs⟩ := List.head?_eq_some_iff.mp h
  have hne := run_star_ne_nil r q
  simp only [run] at hne ⊢
  cases hlen : pl.rest.length with
  | zero => omega
  | succ n =>
      have hfuel : iterate (run r) n q = iterate (run r) q.rest.length q :=
        iterate_fuel (by omega) (Nat.le_refl _)
      rw [iterate, hqs, List.filter_cons_of_pos (by simpa using hlt), List.flatMap_cons, hfuel,
        List.append_assoc, List.head?_append_of_ne_nil _ hne]

/-- A repetition ends where there is no further match. -/
theorem head?_run_star_nil {pl : Place α} (h : run r pl = []) :
    (run (.star r) pl).head? = some pl := by
  simp only [run]
  cases pl.rest.length with
  | zero => rfl
  | succ n =>
      rw [iterate, h]
      rfl

/-- There is a match, and the first ends at a place of `Q`. -/
def Ends (r : Regex α) (pl : Place α) (Q : Place α → Prop) : Prop :=
  ∃ q, (run r pl).head? = some q ∧ Q q

theorem Ends.mono {pl : Place α} {Q Q' : Place α → Prop} (h : Ends r pl Q)
    (himp : ∀ q, Q q → Q' q) : Ends r pl Q' := by
  obtain ⟨q, hq, hQ⟩ := h
  exact ⟨q, hq, himp q hQ⟩

theorem Ends.symbol {p : α → Bool} {a : α} (h : p a = true) {before : Option α} {l : List α}
    {Q : Place α → Prop} (hQ : Q ⟨some a, l⟩) : Ends (.symbol p) ⟨before, a :: l⟩ Q := by
  refine ⟨⟨some a, l⟩, ?_, hQ⟩
  simp only [run]
  rw [if_pos h]
  rfl

theorem Ends.notBehind {p : α → Bool} {l : List α} {Q : Place α → Prop} (hQ : Q ⟨none, l⟩) :
    Ends (.notBehind p) ⟨none, l⟩ Q :=
  ⟨⟨none, l⟩, rfl, hQ⟩

theorem Ends.notAhead {p : α → Bool} {pl : Place α} {Q : Place α → Prop} (h : pl.rest = [])
    (hQ : Q pl) : Ends (.notAhead p) pl Q := by
  refine ⟨pl, ?_, hQ⟩
  simp only [run]
  rw [h]
  rfl

theorem Ends.seq {pl : Place α} {Q Q' : Place α → Prop} (hr : Ends r pl Q)
    (hs : ∀ q, Q q → Ends s q Q') : Ends (.seq r s) pl Q' := by
  obtain ⟨q, hq, hQ⟩ := hr
  obtain ⟨q', hq', hQ'⟩ := hs q hQ
  refine ⟨q', ?_, hQ'⟩
  obtain ⟨qs, hqs⟩ := List.head?_eq_some_iff.mp hq
  obtain ⟨qs', hqs'⟩ := List.head?_eq_some_iff.mp hq'
  simp only [run]
  rw [hqs, List.flatMap_cons, hqs']
  rfl

/-- The repetition rule: what holds before and after each further match holds in the end. -/
theorem Ends.star {I Q : Place α → Prop}
    (hstep : ∀ pl, I pl → run r pl = [] ∧ Q pl ∨
      Ends r pl fun q => I q ∧ q.rest.length < pl.rest.length)
    {pl : Place α} (h : I pl) : Ends (.star r) pl Q := by
  induction hlen : pl.rest.length using Nat.strongRecOn generalizing pl with
  | _ n ih =>
      rcases hstep pl h with ⟨hnil, hQ⟩ | ⟨q, hq, hI, hlt⟩
      · exact ⟨pl, head?_run_star_nil hnil, hQ⟩
      · obtain ⟨q', hq', hQ⟩ := ih q.rest.length (hlen ▸ hlt) hI rfl
        refine ⟨q', ?_, hQ⟩
        rw [head?_run_star_cons hq hlt, hq']

theorem run_symbol_eq_nil {p : α → Bool} {pl : Place α} (h : ∀ a ∈ pl.rest.head?, p a = false) :
    run (.symbol p) pl = [] := by
  obtain ⟨before, rest⟩ := pl
  cases rest with
  | nil => rfl
  | cons a l =>
      simp only [run]
      rw [h a rfl]
      rfl

theorem run_seq_eq_nil {pl : Place α} (h : run r pl = []) : run (.seq r s) pl = [] := by
  simp only [run]
  rw [h]
  rfl

theorem subFrom_nil (r : Regex α) (repl : List α) (n : ℕ) {q : Place α} (hq : q.rest = []) :
    subFrom r repl n q = [] := by
  cases n with
  | zero => exact hq
  | succ n =>
      rw [subFrom]
      simp only [hq]

/-- A text whose first match is all of it is replaced as a whole. -/
theorem sub_whole {text : List α} (hne : text ≠ []) (repl : List α)
    (h : Ends r ⟨none, text⟩ fun q => q.rest = []) : sub r repl text = repl := by
  obtain ⟨q, hq, hend⟩ := h
  unfold sub
  cases text with
  | nil => exact absurd rfl hne
  | cons a l =>
      rw [List.length_cons, subFrom]
      simp only [hq]
      rw [if_pos (by simp [hend]), subFrom_nil r repl _ hend, List.append_nil]

/-- Something is left of a text that is not empty. -/
theorem rest_of_subFrom_nil {repl : List α} (hrepl : repl ≠ []) (n : ℕ) {q : Place α}
    (h : subFrom r repl n q = []) : q.rest = [] := by
  cases n with
  | zero => exact h
  | succ n =>
      obtain ⟨before, rest⟩ := q
      cases rest with
      | nil => rfl
      | cons a l =>
          rw [subFrom] at h
          cases hq : (run r ⟨before, a :: l⟩).head? with
          | none =>
              simp only [hq] at h
              cases h
          | some q =>
              simp only [hq] at h
              split at h
              · exact absurd (List.append_eq_nil_iff.mp h).1 hrepl
              · cases h

/-- A text replaced as a whole, by something that begins otherwise, is a match. -/
theorem exists_match_of_sub {a b : α} {l repl : List α} (hab : a ≠ b)
    (h : sub r (b :: repl) (a :: l) = b :: repl) :
    ∃ q ∈ run r ⟨none, a :: l⟩, q.rest = [] := by
  unfold sub at h
  rw [List.length_cons, subFrom] at h
  cases hq : (run r ⟨none, a :: l⟩).head? with
  | none =>
      simp only [hq, List.cons.injEq] at h
      exact absurd h.1 hab
  | some q =>
      simp only [hq] at h
      split at h
      · have hrest := List.append_right_eq_self.mp h
        refine ⟨q, List.mem_of_head? hq, ?_⟩
        exact rest_of_subFrom_nil (List.cons_ne_nil b repl) _ hrest
      · rw [List.cons.injEq] at h
        exact absurd h.1 hab

end OpencodeA2a.Pattern
