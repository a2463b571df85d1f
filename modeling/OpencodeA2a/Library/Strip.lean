import Mathlib.Data.List.DropRight
import Mathlib.Data.List.Infix
import Mathlib.Tactic.Cases

/-!
# Stripping blanks off both ends of a list

`strip p l` drops the elements that satisfy `p` (the *blanks*) from both ends of
`l`. What stands between the first and the last solid element of a list is its
core, and stripping returns it; a longer list has a longer core, of which the
core of the shorter list is the part up to its last solid element
(`strip_eq_upTo`). So two growing lists that once differ in their cores differ
for ever, unless the one behind catches up in solid elements
(`strip_ne_of_strip_ne`).
-/

namespace OpencodeA2a.Strip

variable {α : Type} (p : α → Bool)

/-! ## §1  Definitions -/

def strip (l : List α) : List α :=
  (l.dropWhile p).rdropWhile p

/-- The elements that are no blanks, in order. -/
def solid (l : List α) : List α :=
  l.filter fun a => !p a

/-- A list of blanks. -/
def Blank (l : List α) : Prop := ∀ a ∈ l, p a = true

instance (l : List α) : Decidable (Blank p l) :=
  inferInstanceAs (Decidable (∀ a ∈ l, p a = true))

/-- A list that begins and ends with a solid element. -/
def Core (l : List α) : Prop := l ≠ [] ∧ strip p l = l

/-- The shortest prefix with `n` solid elements. -/
def upTo : ℕ → List α → List α
  | 0, _ => []
  | _ + 1, [] => []
  | n + 1, a :: l => if p a then a :: upTo (n + 1) l else a :: upTo n l

variable {p} {l m b : List α}

/-! ## §2  Blanks -/

theorem Blank.append (hl : Blank p l) (hm : Blank p m) : Blank p (l ++ m) := by
  intro a ha
  rcases List.mem_append.mp ha with h | h
  · exact hl a h
  · exact hm a h

theorem blank_append_iff : Blank p (l ++ m) ↔ Blank p l ∧ Blank p m := by
  constructor
  · intro h
    exact ⟨fun a ha => h a (List.mem_append_left _ ha), fun a ha => h a (List.mem_append_right _ ha)⟩
  · rintro ⟨hl, hm⟩
    exact hl.append hm

@[simp] theorem blank_nil : Blank p ([] : List α) := by
  intro a ha
  cases ha

theorem Blank.dropWhile (h : Blank p l) : l.dropWhile p = [] :=
  List.dropWhile_eq_nil_iff.mpr h

theorem Blank.rdropWhile (h : Blank p l) : l.rdropWhile p = [] :=
  List.rdropWhile_eq_nil_iff.mpr h

theorem blank_iff_strip : Blank p l ↔ strip p l = [] := by
  unfold strip
  constructor
  · intro h
    rw [h.dropWhile, List.rdropWhile_nil]
  · intro h a ha
    by_contra hp
    have hall := List.rdropWhile_eq_nil_iff.mp h
    have hmem : l.dropWhile p ≠ [] := by
      intro hnil
      exact hp (List.dropWhile_eq_nil_iff.mp hnil a ha)
    have hhead := List.head_dropWhile_not p hmem
    have := hall _ (List.head_mem hmem)
    rw [hhead] at this
    cases this

theorem blank_rtakeWhile : Blank p (l.rtakeWhile p) := fun _ ha => List.mem_rtakeWhile_imp ha

theorem blank_takeWhile : Blank p (l.takeWhile p) := fun _ ha => List.mem_takeWhile_imp ha

/-! ## §3  Stripping an append -/

theorem dropWhile_blank_append (hb : Blank p b) : (b ++ l).dropWhile p = l.dropWhile p :=
  List.dropWhile_append_of_pos hb

theorem rdropWhile_append_blank (hb : Blank p b) : (l ++ b).rdropWhile p = l.rdropWhile p := by
  unfold List.rdropWhile
  rw [List.reverse_append, List.dropWhile_append_of_pos]
  intro a ha
  exact hb a (List.mem_reverse.mp ha)

/-- What ends an append ends its stripped form, unless it is blank. -/
theorem rdropWhile_append (hm : ¬ Blank p m) : (l ++ m).rdropWhile p = l ++ m.rdropWhile p := by
  have hne : (List.dropWhile p m.reverse).isEmpty = false := by
    rw [List.isEmpty_eq_false_iff]
    intro hnil
    apply hm
    intro a ha
    exact List.dropWhile_eq_nil_iff.mp hnil a (List.mem_reverse.mpr ha)
  unfold List.rdropWhile
  rw [List.reverse_append, List.dropWhile_append, hne]
  simp

theorem dropWhile_append (hl : ¬ Blank p l) : (l ++ m).dropWhile p = l.dropWhile p ++ m := by
  have hne : (List.dropWhile p l).isEmpty = false := by
    rw [List.isEmpty_eq_false_iff]
    intro hnil
    exact hl (List.dropWhile_eq_nil_iff.mp hnil)
  rw [List.dropWhile_append, hne]
  simp

theorem not_blank_dropWhile (hl : ¬ Blank p l) : ¬ Blank p (l.dropWhile p) := by
  intro h
  apply hl
  rw [← List.takeWhile_append_dropWhile (p := p) (l := l)]
  exact blank_takeWhile.append h

theorem strip_blank_append (hb : Blank p b) : strip p (b ++ l) = strip p l := by
  unfold strip
  rw [dropWhile_blank_append hb]

theorem strip_append_blank (hb : Blank p b) : strip p (l ++ b) = strip p l := by
  by_cases hl : Blank p l
  · rw [blank_iff_strip.mp hl, blank_iff_strip.mp (hl.append hb)]
  · unfold strip
    rw [dropWhile_append hl, rdropWhile_append_blank hb]

theorem strip_congr_dropWhile (h : l.dropWhile p = m.dropWhile p) : strip p l = strip p m := by
  unfold strip
  rw [h]

/-! ## §4  Cores -/

theorem Core.not_blank (h : Core p l) : ¬ Blank p l := by
  intro hb
  rw [blank_iff_strip, h.2] at hb
  exact h.1 hb

theorem Core.dropWhile (h : Core p l) : l.dropWhile p = l := by
  have hsub : l.length ≤ (l.dropWhile p).length := by
    calc l.length = (strip p l).length := by rw [h.2]
      _ ≤ (l.dropWhile p).length := (List.rdropWhile_prefix p _).length_le
  exact (List.dropWhile_suffix p).eq_of_length_le hsub

theorem Core.rdropWhile (h : Core p l) : l.rdropWhile p = l := by
  have := h.2
  unfold strip at this
  rwa [h.dropWhile] at this

/-- Before a core, only the front is stripped. -/
theorem strip_append_core (l : List α) (h : Core p m) : strip p (l ++ m) = l.dropWhile p ++ m := by
  unfold strip
  by_cases hl : Blank p l
  · rw [dropWhile_blank_append hl, h.dropWhile, h.rdropWhile, hl.dropWhile, List.nil_append]
  · rw [dropWhile_append hl, rdropWhile_append h.not_blank, h.rdropWhile]

/-- Stripping returns a core, whatever is solid. -/
theorem core_strip (h : ¬ Blank p l) : Core p (strip p l) := by
  have hne : strip p l ≠ [] := by
    intro hnil
    exact h (blank_iff_strip.mpr hnil)
  refine ⟨hne, ?_⟩
  have hhead : (strip p l).dropWhile p = strip p l := by
    rw [List.dropWhile_eq_self_iff]
    intro hlen
    have hpre : strip p l <+: l.dropWhile p := List.rdropWhile_prefix p _
    have hd : l.dropWhile p ≠ [] := by
      intro hnil
      exact h (List.dropWhile_eq_nil_iff.mp hnil)
    have hget : (strip p l)[0] = (l.dropWhile p).head hd := by
      rw [hpre.getElem, List.head_eq_getElem]
    rw [hget, List.head_dropWhile_not p hd]
    decide
  show ((strip p l).dropWhile p).rdropWhile p = strip p l
  rw [hhead]
  exact List.rdropWhile_idempotent p _

/-- The blanks at the end of a list are those at the end of what its first
solid element begins. -/
theorem rtakeWhile_dropWhile (h : ¬ Blank p l) : (l.dropWhile p).rtakeWhile p = l.rtakeWhile p := by
  have hsplit : l.rdropWhile p ++ l.rtakeWhile p =
      l.takeWhile p ++ (l.dropWhile p).rdropWhile p ++ (l.dropWhile p).rtakeWhile p := by
    rw [List.rdropWhile_append_rtakeWhile, List.append_assoc, List.rdropWhile_append_rtakeWhile,
      List.takeWhile_append_dropWhile]
  have hrd : l.rdropWhile p = l.takeWhile p ++ (l.dropWhile p).rdropWhile p := by
    conv_lhs => rw [← List.takeWhile_append_dropWhile (p := p) (l := l)]
    exact rdropWhile_append (not_blank_dropWhile h)
  rw [hrd] at hsplit
  exact (List.append_cancel_left hsplit).symm

/-- A list is its core between two runs of blanks. -/
theorem eq_append_strip (l : List α) (h : ¬ Blank p l) :
    ∃ b, Blank p b ∧ l = b ++ (strip p l ++ l.rtakeWhile p) := by
  refine ⟨l.takeWhile p, blank_takeWhile, ?_⟩
  unfold strip
  rw [← rtakeWhile_dropWhile h, List.rdropWhile_append_rtakeWhile,
    List.takeWhile_append_dropWhile]

theorem strip_core_append (hb : Blank p b) (hc : Core p l) (m : List α) :
    strip p (b ++ (l ++ m)) = l ++ m.rdropWhile p := by
  rw [strip_blank_append hb]
  unfold strip
  rw [dropWhile_append hc.not_blank, hc.dropWhile]
  by_cases hm : Blank p m
  · rw [rdropWhile_append_blank hm, hm.rdropWhile, hc.rdropWhile, List.append_nil]
  · exact rdropWhile_append hm

/-- The blanks at the end of an append. -/
theorem rtakeWhile_append (l : List α) (hm : ¬ Blank p m) :
    (l ++ m).rtakeWhile p = m.rtakeWhile p := by
  have hsplit : (l ++ m).rdropWhile p ++ (l ++ m).rtakeWhile p =
      (l ++ m).rdropWhile p ++ m.rtakeWhile p := by
    rw [List.rdropWhile_append_rtakeWhile, rdropWhile_append hm, List.append_assoc,
      List.rdropWhile_append_rtakeWhile]
  exact List.append_cancel_left hsplit

theorem rtakeWhile_core_append (hc : Core p l) (hm : Blank p m) (b : List α) :
    (b ++ (l ++ m)).rtakeWhile p = m := by
  have hrd : (b ++ (l ++ m)).rdropWhile p = b ++ l := by
    rw [← List.append_assoc, rdropWhile_append_blank hm, rdropWhile_append hc.not_blank,
      hc.rdropWhile]
  have hsplit : (b ++ l) ++ (b ++ (l ++ m)).rtakeWhile p = (b ++ l) ++ m := by
    rw [← hrd, List.rdropWhile_append_rtakeWhile, hrd, List.append_assoc]
  exact List.append_cancel_left hsplit

theorem rtakeWhile_append_blank (hb : Blank p b) :
    (l ++ b).rtakeWhile p = l.rtakeWhile p ++ b := by
  have hsplit : l.rdropWhile p ++ (l ++ b).rtakeWhile p =
      l.rdropWhile p ++ (l.rtakeWhile p ++ b) := by
    rw [← List.append_assoc, List.rdropWhile_append_rtakeWhile, ← rdropWhile_append_blank hb,
      List.rdropWhile_append_rtakeWhile]
  exact List.append_cancel_left hsplit

theorem Core.rtakeWhile (h : Core p l) : l.rtakeWhile p = [] := by
  have hsplit : l.rdropWhile p ++ l.rtakeWhile p = l ++ [] := by
    rw [List.rdropWhile_append_rtakeWhile, List.append_nil]
  rw [h.rdropWhile] at hsplit
  exact List.append_cancel_left hsplit

/-- A core does not end in blanks. -/
theorem Core.eq_nil_of_append (h : Core p (l ++ b)) (hb : Blank p b) : b = [] := by
  have hlen : (l ++ b).length ≤ l.length := by
    calc (l ++ b).length = (l.rdropWhile p).length := by
          rw [← rdropWhile_append_blank hb, h.rdropWhile]
      _ ≤ l.length := (List.rdropWhile_prefix p l).length_le
  rw [List.length_append] at hlen
  exact List.eq_nil_of_length_eq_zero (by omega)

theorem dropWhile_append_congr (h : l.dropWhile p = m.dropWhile p) (b : List α) :
    (l ++ b).dropWhile p = (m ++ b).dropWhile p := by
  rw [List.dropWhile_append, List.dropWhile_append, h]

/-- What begins a list without leading blanks has none either. -/
theorem dropWhile_prefix_self (h : l <+: m) (hm : m.dropWhile p = m) : l.dropWhile p = l := by
  obtain ⟨b, rfl⟩ := h
  cases l with
  | nil => rfl
  | cons a l =>
      by_cases ha : p a = true
      · have hlen := congrArg List.length hm
        have hle := (List.dropWhile_suffix p (l := l ++ b)).length_le
        simp only [List.cons_append, List.dropWhile_cons, ha, if_true, List.length_cons] at hlen hle
        omega
      · simp [ha]

/-- Blanks put before a list that is not blank change how it begins. -/
theorem not_prefix_blank_append (hl : ¬ Blank p l) (hb : Blank p b) (hne : b ≠ []) (m : List α) :
    ¬ l <+: b ++ (l ++ m) := by
  rintro ⟨t, ht⟩
  have htake : ∀ x : List α, ((l ++ x).takeWhile p).length = (l.takeWhile p).length := by
    intro x
    have hlen : (l.takeWhile p).length ≠ l.length := by
      intro heq
      apply hl
      have := (List.takeWhile_prefix p (l := l)).eq_of_length heq
      rw [← this]
      exact blank_takeWhile
    rw [List.takeWhile_append, if_neg hlen]
  have hcount := congrArg (fun l => (l.takeWhile p).length) ht
  simp only [htake, List.takeWhile_append_of_pos hb, List.length_append] at hcount
  have := List.length_pos_iff.mpr hne
  omega

/-! ## §5  Solid elements -/

@[simp] theorem solid_append : solid p (l ++ m) = solid p l ++ solid p m :=
  List.filter_append ..

theorem solid_blank (h : Blank p l) : solid p l = [] := by
  unfold solid
  rw [List.filter_eq_nil_iff]
  intro a ha
  simp [h a ha]

theorem blank_iff_solid : Blank p l ↔ solid p l = [] := by
  refine ⟨solid_blank, ?_⟩
  intro h a ha
  have := List.filter_eq_nil_iff.mp h a ha
  simpa using this

theorem solid_strip (l : List α) : solid p (strip p l) = solid p l := by
  by_cases h : Blank p l
  · rw [blank_iff_strip.mp h, solid_blank h]
    rfl
  · obtain ⟨b, hb, hl⟩ := eq_append_strip l h
    conv_rhs => rw [hl]
    simp [solid_blank hb, solid_blank blank_rtakeWhile]

@[simp] theorem upTo_zero (l : List α) : upTo p 0 l = [] := by
  cases l <;> rfl

theorem upTo_append {n : ℕ} (h : n ≤ (solid p l).length) : upTo p n (l ++ m) = upTo p n l := by
  induction l generalizing n with
  | nil =>
      obtain rfl : n = 0 := by simpa [solid] using h
      simp
  | cons a l ih =>
      cases n with
      | zero => rfl
      | succ n =>
          by_cases ha : p a = true
          · simp only [List.cons_append, upTo, ha, if_true]
            rw [ih (by simpa [solid, ha] using h)]
          · have hn : n ≤ (solid p l).length := by simpa [solid, ha] using h
            simp only [List.cons_append, upTo, ha, Bool.false_eq_true, if_false, ih hn]

theorem upTo_rdropWhile (l : List α) : upTo p (solid p l).length l = l.rdropWhile p := by
  induction l with
  | nil => rfl
  | cons a l ih =>
      have hcons : (a :: l).rdropWhile p =
          if Blank p l then (if p a then [] else [a]) else a :: l.rdropWhile p := by
        split
        · rename_i hl
          rw [← List.singleton_append, rdropWhile_append_blank hl, List.rdropWhile_singleton]
        · rename_i hl
          rw [← List.singleton_append, rdropWhile_append hl]
          rfl
      rw [hcons]
      by_cases ha : p a = true
      · have hs : solid p (a :: l) = solid p l := by simp [solid, ha]
        rw [hs]
        by_cases hl : Blank p l
        · rw [if_pos hl, if_pos ha, solid_blank hl]
          rfl
        · rw [if_neg hl, ← ih]
          obtain ⟨n, hn⟩ : ∃ n, (solid p l).length = n + 1 := by
            refine ⟨(solid p l).length - 1, ?_⟩
            have : solid p l ≠ [] := fun h => hl (blank_iff_solid.mpr h)
            have := List.length_pos_iff.mpr this
            omega
          rw [hn]
          simp only [upTo, ha, if_true]
      · have hs : (solid p (a :: l)).length = (solid p l).length + 1 := by simp [solid, ha]
        rw [hs]
        simp only [upTo, ha]
        rw [ih]
        by_cases hl : Blank p l
        · simp [hl, hl.rdropWhile]
        · simp [hl]

/-- The core of a list is the beginning of the core of every longer list. -/
theorem strip_eq_upTo (l m : List α) :
    strip p l = upTo p (solid p l).length (strip p (l ++ m)) := by
  by_cases hl : Blank p l
  · rw [blank_iff_strip.mp hl, solid_blank hl, List.length_nil, upTo_zero]
  · have hcount : (solid p (l.dropWhile p)).length = (solid p l).length := by
      have hs : solid p (l.takeWhile p ++ l.dropWhile p) = solid p (l.dropWhile p) := by
        rw [solid_append, solid_blank blank_takeWhile, List.nil_append]
      rw [List.takeWhile_append_dropWhile] at hs
      rw [hs]
    have hle : (solid p l).length ≤ (solid p (strip p (l ++ m))).length := by
      rw [solid_strip, solid_append, List.length_append]
      omega
    calc strip p l = upTo p (solid p l).length (l.dropWhile p) := by
          rw [← hcount, upTo_rdropWhile]
          rfl
      _ = upTo p (solid p l).length (l.dropWhile p ++ m) := (upTo_append (by omega)).symm
      _ = upTo p (solid p l).length
            (strip p (l ++ m) ++ (l.dropWhile p ++ m).rtakeWhile p) := by
          unfold strip
          rw [dropWhile_append hl, List.rdropWhile_append_rtakeWhile]
      _ = upTo p (solid p l).length (strip p (l ++ m)) := upTo_append hle

/-- Two lists that grow, one never by more solid elements than the other: once
their cores differ they differ for good. -/
theorem strip_ne_of_strip_ne {l' m' : List α} (hlen : (solid p l).length ≤ (solid p m).length)
    (hgrow : (solid p l').length ≤ (solid p m').length) (hne : strip p l ≠ strip p m) :
    strip p (l ++ l') ≠ strip p (m ++ m') := by
  intro heq
  apply hne
  have hsolid := congrArg (fun l => (solid p l).length) heq
  simp only [solid_strip, solid_append, List.length_append] at hsolid
  have hcount : (solid p l).length = (solid p m).length := by omega
  rw [strip_eq_upTo l l', strip_eq_upTo m m', heq, hcount]

theorem strip_ne_of_solid_lt (h : (solid p l).length < (solid p m).length) :
    strip p l ≠ strip p m := by
  intro heq
  have hsolid := congrArg (fun l => (solid p l).length) heq
  simp only [solid_strip] at hsolid
  omega

end OpencodeA2a.Strip
