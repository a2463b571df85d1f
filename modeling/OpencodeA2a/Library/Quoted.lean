import Mathlib.Data.List.Basic
import Mathlib.Tactic.Cases

/-!
# Texts with quoted strings

A text is read symbol by symbol: outside its strings, inside of one, or right after an
escape symbol. Two readings of one text that start on opposite sides of a quote stay on
opposite sides, and neither meets an escape (`opposite_readings`): this is what a reader
sees that begins in the middle of a string.
-/

namespace OpencodeA2a.Quoted

/-- What may stand where. -/
structure Grammar (α : Type) where
  quote : α
  escape : α
  /-- what may stand outside the strings -/
  outer : α → Bool
  /-- what may stand inside a string as it is -/
  inner : α → Bool
  /-- what may follow an escape symbol -/
  escaped : α → Bool
  quote_ne_escape : quote ≠ escape
  outer_escape : outer escape = false

inductive Mode where
  | outside
  | inside
  | escaping
deriving DecidableEq

variable {α : Type} [DecidableEq α] (g : Grammar α)

/-! ## §1  Reading -/

def step : Mode → α → Option Mode
  | .outside, a => if a = g.quote then some .inside else if g.outer a then some .outside else none
  | .inside, a =>
      if a = g.quote then some .outside
      else if a = g.escape then some .escaping
      else if g.inner a then some .inside
      else none
  | .escaping, a => if g.escaped a then some .inside else none

/-- The mode after a text, if it can be read. -/
def read : Mode → List α → Option Mode
  | m, [] => some m
  | m, a :: l => (step g m a).bind fun m => read m l

variable {g} {m m' : Mode} {a : α} {l l' : List α}

theorem read_append (m : Mode) (l l' : List α) :
    read g m (l ++ l') = (read g m l).bind fun m => read g m l' := by
  induction l generalizing m with
  | nil => rfl
  | cons a l ih =>
      simp only [List.cons_append, read]
      cases step g m a with
      | none => rfl
      | some m => exact ih m

theorem read_append_eq_some {m'' : Mode} (h : read g m (l ++ l') = some m'') :
    ∃ m', read g m l = some m' ∧ read g m' l' = some m'' := by
  rw [read_append] at h
  exact Option.bind_eq_some_iff.mp h

theorem read_cons_eq_some {m'' : Mode} (h : read g m (a :: l) = some m'') :
    ∃ m', step g m a = some m' ∧ read g m' l = some m'' :=
  Option.bind_eq_some_iff.mp h

/-! ## §2  Symbols that stand in strings only, and blanks -/

/-- A symbol that may stand nowhere is in no text that can be read. -/
theorem not_mem_of_read (hquote : a ≠ g.quote) (houter : g.outer a = false)
    (hescape : a ≠ g.escape) (hinner : g.inner a = false) (hescaped : g.escaped a = false)
    (h : read g m l = some m') : a ∉ l := by
  intro ha
  obtain ⟨l₁, l₂, rfl⟩ := List.append_of_mem ha
  obtain ⟨n, -, htail⟩ := read_append_eq_some h
  obtain ⟨n', hstep, -⟩ := read_cons_eq_some htail
  cases n with
  | outside =>
      simp only [step, if_neg hquote, houter] at hstep
      cases hstep
  | inside =>
      simp only [step, if_neg hquote, if_neg hescape, hinner] at hstep
      cases hstep
  | escaping =>
      simp only [step, hescaped] at hstep
      cases hstep

/-- A symbol that changes no mode. -/
structure Neutral (g : Grammar α) (a : α) : Prop where
  quote : a ≠ g.quote
  escape : a ≠ g.escape
  escaped : g.escaped a = false

theorem Neutral.step (h : Neutral g a) (hstep : step g m a = some m') : m' = m := by
  cases m with
  | outside =>
      simp only [Quoted.step, if_neg h.quote] at hstep
      split at hstep <;> cases hstep
      rfl
  | inside =>
      simp only [Quoted.step, if_neg h.quote, if_neg h.escape] at hstep
      split at hstep <;> cases hstep
      rfl
  | escaping =>
      simp only [Quoted.step, h.escaped] at hstep
      cases hstep

theorem read_neutral (hl : ∀ a ∈ l, Neutral g a) (h : read g m l = some m') : m' = m := by
  induction l generalizing m with
  | nil =>
      cases h
      rfl
  | cons a l ih =>
      obtain ⟨m₁, hstep, htail⟩ := read_cons_eq_some h
      have hm₁ := (hl a List.mem_cons_self).step hstep
      subst hm₁
      exact ih (fun b hb => hl b (List.mem_cons_of_mem _ hb)) htail

/-- Neutral symbols at the ends may be left away. -/
theorem read_trimmed {b b' : List α} (hb : ∀ a ∈ b, Neutral g a) (hb' : ∀ a ∈ b', Neutral g a)
    (h : read g m (b ++ l ++ b') = some m') : read g m l = some m' := by
  obtain ⟨m₂, hbl, hend⟩ := read_append_eq_some h
  obtain ⟨m₁, hstart, hl⟩ := read_append_eq_some hbl
  have hm₁ := read_neutral hb hstart
  have hm₂ := read_neutral hb' hend
  subst hm₁ hm₂
  exact hl

/-! ## §3  The same text from the other side of a quote -/

/-- The same strings, with any symbol but quotes and escapes in them. -/
def Grammar.loose (g : Grammar α) : Grammar α := { g with inner := fun _ => true }

theorem step_loose_inside : step g.loose .inside a =
    if a = g.quote then some .outside else if a = g.escape then some .escaping
    else some .inside := by
  simp only [step, Grammar.loose, if_true]

theorem step_loose_outside : step g.loose .outside a = step g .outside a := rfl

omit [DecidableEq α] in
theorem Neutral.loose (h : Neutral g a) : Neutral g.loose a := ⟨h.quote, h.escape, h.escaped⟩

/-- The two modes are on opposite sides of a quote. -/
inductive Opposite : Mode → Mode → Prop
  | left : Opposite .outside .inside
  | right : Opposite .inside .outside

variable {n n' : Mode}

theorem outside_reads_no_escape (hquote : a ≠ g.quote) (h : step g .outside a = some m) :
    m = .outside ∧ a ≠ g.escape := by
  simp only [step, if_neg hquote] at h
  split at h
  · rename_i houter
    cases h
    refine ⟨rfl, ?_⟩
    rintro rfl
    rw [g.outer_escape] at houter
    cases houter
  · cases h

theorem step_opposite (hmn : Opposite m n) (h : step g m a = some m')
    (h' : step g.loose n a = some n') : Opposite m' n' ∧ a ≠ g.escape := by
  by_cases hquote : a = g.quote
  · subst hquote
    refine ⟨?_, g.quote_ne_escape⟩
    cases hmn with
    | left =>
        rw [step_loose_inside, if_pos rfl] at h'
        simp only [step, if_pos] at h
        cases h
        cases h'
        exact .right
    | right =>
        rw [step_loose_outside] at h'
        simp only [step, if_pos] at h h'
        cases h
        cases h'
        exact .left
  · -- one of the two readers is outside, where no escape may stand
    cases hmn with
    | left =>
        obtain ⟨rfl, hne⟩ := outside_reads_no_escape hquote h
        rw [step_loose_inside, if_neg hquote, if_neg hne] at h'
        cases h'
        exact ⟨.left, hne⟩
    | right =>
        rw [step_loose_outside] at h'
        obtain ⟨rfl, hne⟩ := outside_reads_no_escape hquote h'
        simp only [step, if_neg hquote, if_neg hne] at h
        split at h
        · cases h
          exact ⟨.right, hne⟩
        · cases h

/-- Readings from opposite sides end on opposite sides, and meet no escape. -/
theorem opposite_readings (hmn : Opposite m n) (h : read g m l = some m')
    (h' : read g.loose n l = some n') : Opposite m' n' ∧ g.escape ∉ l := by
  induction l generalizing m n with
  | nil =>
      cases h
      cases h'
      exact ⟨hmn, List.not_mem_nil⟩
  | cons a l ih =>
      obtain ⟨m₁, hstep, htail⟩ := read_cons_eq_some h
      obtain ⟨n₁, hstep', htail'⟩ := read_cons_eq_some h'
      obtain ⟨hopposite, hne⟩ := step_opposite hmn hstep hstep'
      obtain ⟨hend, hnot⟩ := ih hopposite htail htail'
      refine ⟨hend, ?_⟩
      rw [List.mem_cons, not_or]
      exact ⟨fun heq => hne heq.symm, hnot⟩

end OpencodeA2a.Quoted
