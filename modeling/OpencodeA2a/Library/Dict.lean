import Mathlib.Data.List.Nodup
import Mathlib.Data.List.Perm.Subperm

/-!
# Dictionaries that keep the order of insertion

A key occurs once. Setting a key that is present keeps its place, a new one goes
last; the order matters where a sort over the items has to break ties.
-/

namespace OpencodeA2a

structure Dict (κ ν : Type) where
  items : List (κ × ν)
  nodup : (items.map Prod.fst).Nodup

namespace Dict

variable {κ ν : Type}

/-! ## §1  Operations -/

def empty : Dict κ ν := ⟨[], List.nodup_nil⟩

def keys (d : Dict κ ν) : List κ := d.items.map Prod.fst

def values (d : Dict κ ν) : List ν := d.items.map Prod.snd

def filter (d : Dict κ ν) (p : κ × ν → Bool) : Dict κ ν where
  items := d.items.filter p
  nodup := (List.filter_sublist.map Prod.fst).nodup d.nodup

/-- Every item is kept with a new value, or dropped. -/
def updateAll (d : Dict κ ν) (f : κ → ν → Option ν) : Dict κ ν where
  items := d.items.filterMap fun x => (f x.1 x.2).map fun v => (x.1, v)
  nodup := by
    have hkeys : ∀ xs : List (κ × ν),
        ((xs.filterMap fun x => (f x.1 x.2).map fun v => (x.1, v)).map Prod.fst).Sublist
          (xs.map Prod.fst) := by
      intro xs
      induction xs with
      | nil => exact List.Sublist.slnil
      | cons x xs ih =>
          rw [List.filterMap_cons]
          cases f x.1 x.2 with
          | none => exact ih.cons _
          | some v => exact ih.cons_cons _
    exact (hkeys d.items).nodup d.nodup

theorem lookup_eq_some [BEq κ] [LawfulBEq κ] {xs : List (κ × ν)} (h : (xs.map Prod.fst).Nodup)
    {k : κ} {v : ν} : xs.lookup k = some v ↔ (k, v) ∈ xs := by
  induction xs with
  | nil => simp
  | cons x xs ih =>
      obtain ⟨j, w⟩ := x
      rw [List.map_cons, List.nodup_cons] at h
      rw [List.lookup_cons, List.mem_cons]
      by_cases hj : k = j
      · subst hj
        have hnot : (k, v) ∉ xs := fun hmem => h.1 (List.mem_map.mpr ⟨(k, v), hmem, rfl⟩)
        rw [beq_self_eq_true]
        simp only [Option.some.injEq, Prod.mk.injEq, true_and, hnot, or_false]
        exact eq_comm
      · rw [beq_eq_false_iff_ne.mpr hj]
        simp only [Prod.mk.injEq, hj, false_and, false_or]
        exact ih h.2

variable [DecidableEq κ]

def get? (d : Dict κ ν) (k : κ) : Option ν := d.items.lookup k

def assign (k : κ) (v : ν) : List (κ × ν) → List (κ × ν)
  | [] => [(k, v)]
  | x :: xs => if x.1 = k then (k, v) :: xs else x :: assign k v xs

theorem mem_keys_assign {k j : κ} {v : ν} {xs : List (κ × ν)} :
    j ∈ (assign k v xs).map Prod.fst ↔ j = k ∨ j ∈ xs.map Prod.fst := by
  induction xs with
  | nil => simp [assign]
  | cons x xs ih =>
      unfold assign
      split
      · rename_i hx
        simp only [List.map_cons, List.mem_cons, hx]
        tauto
      · simp only [List.map_cons, List.mem_cons, ih]
        tauto

theorem nodup_assign {k : κ} {v : ν} {xs : List (κ × ν)} (h : (xs.map Prod.fst).Nodup) :
    ((assign k v xs).map Prod.fst).Nodup := by
  induction xs with
  | nil => simp [assign]
  | cons x xs ih =>
      rw [List.map_cons, List.nodup_cons] at h
      unfold assign
      split
      · rename_i hx
        rw [List.map_cons, List.nodup_cons]
        exact ⟨hx ▸ h.1, h.2⟩
      · rename_i hx
        rw [List.map_cons, List.nodup_cons, mem_keys_assign]
        exact ⟨fun hcon => hcon.elim hx h.1, ih h.2⟩

def set (d : Dict κ ν) (k : κ) (v : ν) : Dict κ ν := ⟨assign k v d.items, nodup_assign d.nodup⟩

/-- Removes the key, if it is there. -/
def pop (d : Dict κ ν) (k : κ) : Dict κ ν := d.filter fun x => x.1 ≠ k

def popAll (d : Dict κ ν) (ks : List κ) : Dict κ ν := ks.foldl pop d

/-! ## §2  What a dictionary answers -/

theorem get?_eq_some {d : Dict κ ν} {k : κ} {v : ν} : d.get? k = some v ↔ (k, v) ∈ d.items :=
  lookup_eq_some d.nodup

theorem mem_keys {d : Dict κ ν} {k : κ} : k ∈ d.keys ↔ (d.get? k).isSome = true := by
  rw [Option.isSome_iff_exists]
  unfold keys
  simp only [List.mem_map, get?_eq_some, Prod.exists, exists_and_right, exists_eq_right]

@[simp] theorem get?_empty (k : κ) : (empty : Dict κ ν).get? k = none := rfl

theorem mem_assign {k j : κ} {v w : ν} {xs : List (κ × ν)} (h : (xs.map Prod.fst).Nodup) :
    (j, w) ∈ assign k v xs ↔ (j = k ∧ w = v) ∨ (j ≠ k ∧ (j, w) ∈ xs) := by
  induction xs with
  | nil =>
      simp only [assign, List.mem_singleton, Prod.mk.injEq, List.not_mem_nil, and_false, or_false]
  | cons x xs ih =>
      obtain ⟨i, u⟩ := x
      rw [List.map_cons, List.nodup_cons] at h
      unfold assign
      split
      · rename_i hi
        change i = k at hi
        subst hi
        have hnot : j = i → (j, w) ∉ xs := by
          rintro rfl hmem
          exact h.1 (List.mem_map.mpr ⟨(j, w), hmem, rfl⟩)
        simp only [List.mem_cons, Prod.mk.injEq]
        tauto
      · rename_i hi
        change ¬ i = k at hi
        have hne : j = i → j ≠ k := by
          rintro rfl
          exact hi
        simp only [List.mem_cons, Prod.mk.injEq, ih h.2]
        tauto

theorem get?_set (d : Dict κ ν) (k j : κ) (v : ν) :
    (d.set k v).get? j = if j = k then some v else d.get? j := by
  ext w
  rw [get?_eq_some]
  change (j, w) ∈ assign k v d.items ↔ _
  rw [mem_assign d.nodup]
  split
  · rename_i hj
    simp only [hj, true_and, ne_eq, not_true_eq_false, false_and, or_false, Option.some.injEq]
    exact eq_comm
  · rename_i hj
    simp only [hj, false_and, ne_eq, not_false_eq_true, true_and, false_or]
    exact get?_eq_some.symm

@[simp] theorem get?_set_self (d : Dict κ ν) (k : κ) (v : ν) : (d.set k v).get? k = some v := by
  rw [get?_set, if_pos rfl]

theorem get?_set_of_ne (d : Dict κ ν) {k j : κ} (h : j ≠ k) (v : ν) :
    (d.set k v).get? j = d.get? j := by
  rw [get?_set, if_neg h]

theorem get?_filter (d : Dict κ ν) (p : κ × ν → Bool) (k : κ) :
    (d.filter p).get? k = (d.get? k).filter fun v => p (k, v) := by
  ext v
  rw [get?_eq_some, Option.filter_eq_some_iff, get?_eq_some]
  exact List.mem_filter

theorem get?_pop (d : Dict κ ν) (k j : κ) :
    (d.pop k).get? j = if j = k then none else d.get? j := by
  unfold pop
  rw [get?_filter]
  by_cases hj : j = k
  · rw [if_pos hj, Option.filter_eq_none_iff]
    intro v _
    simp [hj]
  · rw [if_neg hj]
    cases d.get? j <;> simp [Option.filter, hj]

@[simp] theorem get?_pop_self (d : Dict κ ν) (k : κ) : (d.pop k).get? k = none := by
  rw [get?_pop, if_pos rfl]

theorem get?_pop_of_ne (d : Dict κ ν) {k j : κ} (h : j ≠ k) : (d.pop k).get? j = d.get? j := by
  rw [get?_pop, if_neg h]

theorem get?_updateAll (d : Dict κ ν) (f : κ → ν → Option ν) (k : κ) :
    (d.updateAll f).get? k = (d.get? k).bind (f k) := by
  ext v
  rw [get?_eq_some, Option.bind_eq_some_iff]
  simp only [get?_eq_some]
  constructor
  · intro h
    obtain ⟨⟨j, w⟩, hmem, hx⟩ := List.mem_filterMap.mp h
    obtain ⟨v', hf, heq⟩ := Option.map_eq_some_iff.mp hx
    cases heq
    exact ⟨w, hmem, hf⟩
  · rintro ⟨w, hmem, hf⟩
    refine List.mem_filterMap.mpr ⟨(k, w), hmem, ?_⟩
    rw [hf]
    rfl

theorem get?_popAll (d : Dict κ ν) (ks : List κ) (k : κ) :
    (d.popAll ks).get? k = if k ∈ ks then none else d.get? k := by
  unfold popAll
  induction ks generalizing d with
  | nil => simp
  | cons j ks ih =>
      rw [List.foldl_cons, ih, get?_pop]
      by_cases hk : k ∈ ks
      · simp [hk]
      · by_cases hj : k = j <;> simp [hk, hj]

/-! ## §3  Items up to their order -/

omit [DecidableEq κ] in
theorem nodup_items (d : Dict κ ν) : d.items.Nodup := d.nodup.of_map Prod.fst

theorem set_perm (d : Dict κ ν) (k : κ) (v : ν) :
    (d.set k v).items.Perm ((k, v) :: (d.pop k).items) := by
  have hnew : (k, v) ∉ (d.pop k).items := by
    rw [← get?_eq_some, get?_pop_self]
    exact nofun
  rw [List.perm_ext_iff_of_nodup (nodup_items _) (List.nodup_cons.mpr ⟨hnew, nodup_items _⟩)]
  rintro ⟨j, w⟩
  rw [List.mem_cons, ← get?_eq_some, ← get?_eq_some, get?_set, get?_pop]
  by_cases hj : j = k
  · simp [hj, eq_comm]
  · simp [hj]

theorem pop_perm {d : Dict κ ν} {k : κ} {v : ν} (h : d.get? k = some v) :
    d.items.Perm ((k, v) :: (d.pop k).items) := by
  have hnew : (k, v) ∉ (d.pop k).items := by
    rw [← get?_eq_some, get?_pop_self]
    exact nofun
  rw [List.perm_ext_iff_of_nodup (nodup_items _) (List.nodup_cons.mpr ⟨hnew, nodup_items _⟩)]
  rintro ⟨j, w⟩
  rw [List.mem_cons, ← get?_eq_some, ← get?_eq_some, get?_pop]
  by_cases hj : j = k
  · simp [hj, h, eq_comm]
  · simp [hj]

theorem pop_of_none {d : Dict κ ν} {k : κ} (h : d.get? k = none) : (d.pop k).items = d.items := by
  refine List.filter_eq_self.mpr fun x hx => ?_
  rw [decide_eq_true_eq]
  rintro rfl
  have hget : d.get? x.1 = some x.2 := get?_eq_some.mpr hx
  rw [h] at hget
  cases hget

theorem items_set_of_none {d : Dict κ ν} {k : κ} (h : d.get? k = none) (v : ν) :
    (d.set k v).items = d.items ++ [(k, v)] := by
  have hassign : ∀ xs : List (κ × ν), k ∉ xs.map Prod.fst → assign k v xs = xs ++ [(k, v)] := by
    intro xs hk
    induction xs with
    | nil => rfl
    | cons x xs ih =>
        rw [List.map_cons, List.mem_cons, not_or] at hk
        rw [assign, if_neg (Ne.symm hk.1), ih hk.2, List.cons_append]
  apply hassign
  intro hk
  have hsome := mem_keys.mp hk
  rw [h] at hsome
  cases hsome

theorem items_popAll (d : Dict κ ν) (ks : List κ) :
    (d.popAll ks).items = d.items.filter fun x => x.1 ∉ ks := by
  unfold popAll
  induction ks generalizing d with
  | nil => simp
  | cons j ks ih =>
      rw [List.foldl_cons, ih]
      unfold pop filter
      rw [List.filter_filter]
      refine List.filter_congr fun x _ => ?_
      simp [Bool.and_comm]

/-- Items of the dictionary are removed by their keys. -/
theorem items_popAll_map {d : Dict κ ν} {xs : List (κ × ν)} (h : xs ⊆ d.items) :
    ∀ x ∈ d.items, x.1 ∈ xs.map Prod.fst ↔ x ∈ xs := by
  intro x hx
  constructor
  · intro hmem
    obtain ⟨y, hy, hkey⟩ := List.mem_map.mp hmem
    have hsame : y.2 = x.2 := by
      have hget := get?_eq_some.mpr (h hy)
      rw [hkey, get?_eq_some.mpr hx] at hget
      exact (Option.some.inj hget).symm
    rwa [← Prod.ext hkey hsame]
  · exact List.mem_map_of_mem

/-! ## §4  Size -/

omit [DecidableEq κ] in
/-- A dictionary has no more items than there are keys it may have. -/
theorem length_le_of_keys {d : Dict κ ν} {l : List κ} (h : ∀ k ∈ d.keys, k ∈ l) :
    d.items.length ≤ l.length := by
  have hsub := (d.nodup.subperm h).length_le
  rwa [List.length_map] at hsub

theorem length_pop {d : Dict κ ν} {k : κ} {v : ν} (h : d.get? k = some v) :
    d.items.length = (d.pop k).items.length + 1 := (pop_perm h).length_eq

/-- A key that is present is set in its place. -/
theorem length_set_of_some {d : Dict κ ν} {k : κ} {v : ν} (h : d.get? k = some v) (w : ν) :
    (d.set k w).items.length = d.items.length :=
  (set_perm d k w).length_eq.trans (length_pop h).symm

theorem length_set_of_none {d : Dict κ ν} {k : κ} (h : d.get? k = none) (w : ν) :
    (d.set k w).items.length = d.items.length + 1 := by
  rw [(set_perm d k w).length_eq, List.length_cons, pop_of_none h]

end Dict

end OpencodeA2a
