import Mathlib.Data.List.Basic
import Mathlib.Tactic.Common

/-!
# Lists of entries

A dictionary as the list of its entries: setting a key replaces the value where the
key stands, or appends an entry. Values can be converted without touching the keys,
and a conversion commutes with what the dictionary answers.
-/

namespace OpencodeA2a.Entries

variable {κ ν μ : Type}

/-! ## §1  Setting a key -/

/-- `d[key] = value` -/
def set [DecidableEq κ] (m : List (κ × ν)) (key : κ) (value : ν) : List (κ × ν) :=
  if m.any fun e => e.1 = key then m.map fun e => if e.1 = key then (key, value) else e
  else m ++ [(key, value)]

/-- What is there after a key is set was there before, or is what was set. -/
theorem mem_set [DecidableEq κ] {m : List (κ × ν)} {key : κ} {value : ν} {e : κ × ν}
    (h : e ∈ set m key value) : e = (key, value) ∨ e ∈ m := by
  unfold set at h
  split at h
  · obtain ⟨e', hmem, he⟩ := List.mem_map.mp h
    split at he
    · exact .inl he.symm
    · exact .inr (he ▸ hmem)
  · rcases List.mem_append.mp h with hmem | hmem
    · exact .inr hmem
    · exact .inl (List.mem_singleton.mp hmem)

/-- Setting a key leaves the entries of other keys alone. -/
theorem filter_set [DecidableEq κ] (m : List (κ × ν)) {key : κ} (value : ν) {p : κ → Bool}
    (hkey : p key = false) : (set m key value).filter (fun e => p e.1) = m.filter fun e => p e.1 := by
  have hreplaced : ∀ l : List (κ × ν),
      (l.map fun e => if e.1 = key then (key, value) else e).filter (fun e => p e.1) =
        l.filter fun e => p e.1 := by
    intro l
    induction l with
    | nil => rfl
    | cons e l ih =>
        rw [List.map_cons, List.filter_cons, List.filter_cons, ih]
        by_cases he : e.1 = key
        · rw [if_pos he, he, hkey]
          rfl
        · rw [if_neg he]
  unfold set
  split
  · exact hreplaced m
  · rw [List.filter_append, List.filter_cons, if_neg (by rw [hkey]; decide), List.filter_nil,
      List.append_nil]

theorem set_ne_nil [DecidableEq κ] (m : List (κ × ν)) (key : κ) (value : ν) :
    set m key value ≠ [] := by
  unfold set
  split
  · rename_i hany
    rw [Ne, List.map_eq_nil_iff]
    rintro rfl
    cases hany
  · simp

theorem mem_of_lookup [BEq κ] [LawfulBEq κ] {m : List (κ × ν)} {key : κ} {value : ν}
    (h : m.lookup key = some value) : (key, value) ∈ m := by
  obtain ⟨before, after, rfl, -⟩ := List.lookup_eq_some_iff.mp h
  exact List.mem_append_cons_self

section Lookup

variable [BEq κ] [LawfulBEq κ] [DecidableEq κ]

theorem lookup_cons_ite (e : κ × ν) (m : List (κ × ν)) (j : κ) :
    List.lookup j (e :: m) = if j = e.1 then some e.2 else m.lookup j := by
  rw [List.lookup_cons]
  by_cases hj : j = e.1
  · rw [if_pos hj, beq_iff_eq.mpr hj]
  · rw [if_neg hj, beq_false_of_ne hj]

theorem lookup_replaced_self {m : List (κ × ν)} {key : κ} (value : ν)
    (h : m.any (fun e => e.1 = key) = true) :
    (m.map fun e => if e.1 = key then (key, value) else e).lookup key = some value := by
  induction m with
  | nil => cases h
  | cons e m ih =>
      rw [List.map_cons, lookup_cons_ite]
      by_cases he : e.1 = key
      · rw [if_pos he, if_pos rfl]
      · rw [List.any_cons, decide_eq_false he, Bool.false_or] at h
        rw [if_neg he, if_neg fun hk => he hk.symm]
        exact ih h

theorem lookup_replaced_of_ne (m : List (κ × ν)) {key j : κ} (hj : j ≠ key) (value : ν) :
    (m.map fun e => if e.1 = key then (key, value) else e).lookup j = m.lookup j := by
  induction m with
  | nil => rfl
  | cons e m ih =>
      rw [List.map_cons, lookup_cons_ite, lookup_cons_ite, ih]
      by_cases he : e.1 = key
      · rw [if_pos he, if_neg hj, if_neg (he ▸ hj)]
      · rw [if_neg he]

theorem lookup_set (m : List (κ × ν)) (key : κ) (value : ν) (j : κ) :
    (set m key value).lookup j = if j = key then some value else m.lookup j := by
  unfold set
  by_cases hj : j = key
  · subst hj
    rw [if_pos rfl]
    split
    · rename_i hany
      exact lookup_replaced_self value hany
    · rename_i hany
      have hnone : m.lookup j = none := by
        rw [List.lookup_eq_none_iff]
        intro e he
        rw [bne_iff_ne]
        intro heq
        exact hany (List.any_eq_true.mpr ⟨e, he, decide_eq_true heq.symm⟩)
      rw [List.lookup_append, hnone, Option.none_or, lookup_cons_ite, if_pos rfl]
  · rw [if_neg hj]
    split
    · exact lookup_replaced_of_ne m hj value
    · rw [List.lookup_append, lookup_cons_ite, if_neg hj]
      exact Option.or_none

end Lookup

/-! ## §2  Converting the values -/

/-- The same keys in the same order, with converted values. -/
def mapValues (f : ν → μ) (m : List (κ × ν)) : List (κ × μ) := m.map fun e => (e.1, f e.2)

theorem lookup_mapValues [BEq κ] (f : ν → μ) (m : List (κ × ν)) (j : κ) :
    (mapValues f m).lookup j = (m.lookup j).map f := by
  induction m with
  | nil => rfl
  | cons e m ih =>
      change List.lookup j ((e.1, f e.2) :: mapValues f m) = _
      rw [List.lookup_cons, List.lookup_cons]
      cases j == e.1 with
      | true => rfl
      | false => exact ih

/-- A converted dictionary is set as the dictionary is. -/
theorem mapValues_set [DecidableEq κ] (f : ν → μ) (m : List (κ × ν)) (key : κ) (value : ν) :
    mapValues f (set m key value) = set (mapValues f m) key (f value) := by
  have hany : (mapValues f m).any (fun e => e.1 = key) = m.any fun e => e.1 = key := by
    unfold mapValues
    rw [List.any_map]
    rfl
  unfold set
  rw [hany]
  split
  · unfold mapValues
    rw [List.map_map, List.map_map]
    apply List.map_congr_left
    intro e _
    simp only [Function.comp_apply]
    split <;> rfl
  · exact List.map_append

end OpencodeA2a.Entries
