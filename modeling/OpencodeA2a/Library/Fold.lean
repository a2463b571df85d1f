import Mathlib.Data.List.Induction

/-!
# One fold, two lists

A left fold comes to the same end on a list and on what is left of it, when the elements
left out change nothing, and, up to a normal form, wherever it is brought to that form on
the way.
-/

namespace OpencodeA2a.Fold

variable {α σ : Type} {f : σ → α → σ}

/-- The second list is the first without some of the elements that may go. -/
inductive Thinned (may : α → Prop) : List α → List α → Prop
  | nil : Thinned may [] []
  | keep (a : α) {l l' : List α} : Thinned may l l' → Thinned may (a :: l) (a :: l')
  | drop {a : α} {l l' : List α} : may a → Thinned may l l' → Thinned may (a :: l) l'

theorem Thinned.foldl_eq {may : α → Prop} (hstill : ∀ s a, may a → f s a = s) {l l' : List α}
    (h : Thinned may l l') (s : σ) : l'.foldl f s = l.foldl f s := by
  induction h generalizing s with
  | nil => rfl
  | keep a _ ih => exact ih (f s a)
  | @drop a _ _ ha _ ih =>
      rw [List.foldl_cons, hstill s a ha]
      exact ih s

/-! ## Normal forms on the way -/

/-- A fold whose state is brought to normal form after the marked elements. -/
def normalising (norm : σ → σ) (f : σ → α → σ) (s : σ) (l : List (α × Bool)) : σ :=
  l.foldl (fun s a => if a.2 then norm (f s a.1) else f s a.1) s

/-- A normal form of the states of `I` that the elements of `J` do not see. -/
structure Transparent (I : σ → Prop) (J : α → Prop) (norm : σ → σ) (f : σ → α → σ) : Prop where
  norm_norm : ∀ s, norm (norm s) = norm s
  norm_mem : ∀ s, I s → I (norm s)
  step_mem : ∀ s a, I s → J a → I (f s a)
  norm_step : ∀ s a, I s → J a → norm (f (norm s) a) = norm (f s a)

variable {I : σ → Prop} {J : α → Prop} {norm : σ → σ}

theorem Transparent.norm_congr (h : Transparent I J norm f) {s t : σ} {a : α} (hs : I s)
    (ht : I t) (ha : J a) (hst : norm s = norm t) : norm (f s a) = norm (f t a) :=
  calc norm (f s a) = norm (f (norm s) a) := (h.norm_step s a hs ha).symm
    _ = norm (f (norm t) a) := by rw [hst]
    _ = norm (f t a) := h.norm_step t a ht ha

/-- Where it is brought to normal form on the way makes no difference in the end. -/
theorem Transparent.norm_normalising (h : Transparent I J norm f) {s : σ} (hs : I s)
    {l : List (α × Bool)} (hl : ∀ a ∈ l, J a.1) :
    norm (normalising norm f s l) = norm ((l.map Prod.fst).foldl f s) := by
  -- the two folds go on from states with the same normal form
  have hboth : ∀ t, I t → norm s = norm t →
      norm (normalising norm f s l) = norm ((l.map Prod.fst).foldl f t) := by
    induction l generalizing s with
    | nil =>
        intro t _ hst
        exact hst
    | cons a l ih =>
        intro t ht hst
        rw [List.forall_mem_cons] at hl
        have hstep := h.norm_congr hs ht hl.1 hst
        have hmem := h.step_mem s a.1 hs hl.1
        unfold normalising
        rw [List.foldl_cons, List.map_cons, List.foldl_cons]
        split
        · refine ih (h.norm_mem _ hmem) hl.2 _ (h.step_mem t a.1 ht hl.1) ?_
          rw [h.norm_norm]
          exact hstep
        · exact ih hmem hl.2 _ (h.step_mem t a.1 ht hl.1) hstep
  exact hboth s hs rfl

/-- Brought to normal form at the end, it is in normal form. -/
theorem Transparent.normalising_eq (h : Transparent I J norm f) {s : σ} (hs : I s)
    {l : List (α × Bool)} (hl : ∀ a ∈ l, J a.1) (hlast : ∃ a, l.getLast? = some (a, true)) :
    normalising norm f s l = norm ((l.map Prod.fst).foldl f s) := by
  rw [← h.norm_normalising hs hl]
  obtain ⟨a, ha⟩ := hlast
  obtain ⟨l', rfl⟩ := List.getLast?_eq_some_iff.mp ha
  unfold normalising
  rw [List.foldl_append, List.foldl_cons, List.foldl_nil, if_pos rfl, h.norm_norm]

end OpencodeA2a.Fold
