import Mathlib.Data.List.Nodup
import Mathlib.Data.List.Perm.Subperm

/-!
# Tables of a relational database

A table is what the statements see of it: the columns it has, the rows that its
constraints admit together (keys, `NOT NULL`, `CHECK`), and its rows. Deleting
rows breaks no constraint, inserting and updating may.
-/

namespace OpencodeA2a

structure Table (ρ : Type) where
  columns : List String
  constraints : List ρ → Bool
  rows : List ρ

/-- How a statement fails. -/
inductive DbError where
  /-- it names a column that the table does not have -/
  | operational
  /-- the rows would not meet the constraints -/
  | integrity
  /-- more than one row where at most one is expected -/
  | multipleResults
deriving DecidableEq

theorem bind_eq_ok {ε α β : Type} {x : Except ε α} {f : α → Except ε β} {b : β} :
    (x >>= f) = .ok b ↔ ∃ a, x = .ok a ∧ f a = .ok b := by
  cases x with
  | error e => simp [bind, Except.bind]
  | ok a => simp [bind, Except.bind]

theorem bind_eq_error {ε α β : Type} {x : Except ε α} {f : α → Except ε β} {e : ε} :
    (x >>= f) = .error e ↔ x = .error e ∨ ∃ a, x = .ok a ∧ f a = .error e := by
  cases x with
  | error e' => simp [bind, Except.bind]
  | ok a => simp [bind, Except.bind]

theorem map_eq_ok {ε α β : Type} {x : Except ε α} {f : α → β} {b : β} :
    f <$> x = .ok b ↔ ∃ a, x = .ok a ∧ f a = b := by
  cases x with
  | error e => exact iff_of_false (by rintro ⟨⟩) (by rintro ⟨a, ⟨⟩, -⟩)
  | ok a =>
      constructor
      · rintro ⟨⟩
        exact ⟨a, rfl, rfl⟩
      · rintro ⟨a', ⟨⟩, rfl⟩
        rfl

namespace Table

variable {ρ κ : Type}

/-! ## §1  Statements -/

/-- Whether the table has the columns that a statement names. -/
def has (t : Table ρ) (names : List String) : Bool := names.all fun name => name ∈ t.columns

def insert (t : Table ρ) (names : List String) (row : ρ) : Except DbError (Table ρ) :=
  if ¬ t.has names then .error .operational
  else if t.constraints (t.rows ++ [row]) then .ok { t with rows := t.rows ++ [row] }
  else .error .integrity

def update (t : Table ρ) (names : List String) (which : ρ → Bool) (change : ρ → ρ) :
    Except DbError (Table ρ) :=
  let rows := t.rows.map fun row => if which row then change row else row
  if ¬ t.has names then .error .operational
  else if t.constraints rows then .ok { t with rows := rows }
  else .error .integrity

def delete (t : Table ρ) (names : List String) (which : ρ → Bool) : Except DbError (Table ρ) :=
  if ¬ t.has names then .error .operational
  else .ok { t with rows := t.rows.filter fun row => !which row }

def select (t : Table ρ) (names : List String) (which : ρ → Bool) : Except DbError (List ρ) :=
  if ¬ t.has names then .error .operational else .ok (t.rows.filter which)

def oneOrNone : List ρ → Except DbError (Option ρ)
  | [] => .ok none
  | [row] => .ok (some row)
  | _ :: _ :: _ => .error .multipleResults

theorem oneOrNone_toList (row : Option ρ) : oneOrNone row.toList = .ok row := by
  cases row <;> rfl

theorem mem_of_mem_delete {t t' : Table ρ} {names : List String} {which : ρ → Bool}
    (h : t.delete names which = .ok t') {row : ρ} (hrow : row ∈ t'.rows) : row ∈ t.rows := by
  unfold delete at h
  split at h
  · cases h
  · cases h
    exact (List.mem_filter.mp hrow).1

/-! ## §2  Tables with a key -/

variable [DecidableEq κ]

/-- The constraints of a table with a key and a check of each row. -/
def keyedBy (key : ρ → κ) (check : ρ → Bool) (rows : List ρ) : Bool :=
  decide (rows.map key).Nodup && rows.all check

/-- The table has the columns and these constraints, and its rows meet them. -/
structure Keyed (key : ρ → κ) (check : ρ → Bool) (columns : List String) (t : Table ρ) :
    Prop where
  columns : t.columns = columns
  constraints : t.constraints = keyedBy key check
  nodup : (t.rows.map key).Nodup
  checked : ∀ row ∈ t.rows, check row = true

/-- The row with the key. -/
def find (key : ρ → κ) (t : Table ρ) (k : κ) : Option ρ := t.rows.find? fun row => key row = k

variable {key : ρ → κ} {check : ρ → Bool} {columns names : List String} {t t' : Table ρ} {k : κ} {row : ρ}

theorem find_eq_some (h : (t.rows.map key).Nodup) :
    t.find key k = some row ↔ row ∈ t.rows ∧ key row = k := by
  unfold find
  constructor
  · intro hfind
    exact ⟨List.mem_of_find?_eq_some hfind, by simpa using List.find?_some hfind⟩
  · rintro ⟨hmem, rfl⟩
    cases hfind : t.rows.find? fun r => key r = key row with
    | none =>
        have hnot := List.find?_eq_none.mp hfind row hmem
        exact absurd (decide_eq_true rfl) hnot
    | some r =>
        have hr := List.mem_of_find?_eq_some hfind
        have hk : key r = key row := by simpa using List.find?_some hfind
        rw [List.inj_on_of_nodup_map h hr hmem hk]

theorem find_eq_none : t.find key k = none ↔ ∀ row ∈ t.rows, key row ≠ k := by
  unfold find
  rw [List.find?_eq_none]
  simp only [decide_eq_true_eq, ne_eq]

omit [DecidableEq κ] in
theorem nodup_filter_rows {rows : List ρ} (h : (rows.map key).Nodup) (p : ρ → Bool) :
    ((rows.filter p).map key).Nodup :=
  (List.filter_sublist.map key).nodup h

namespace Keyed

theorem has (h : Keyed key check columns t) (hnames : names ⊆ columns) :
    t.has names = true := by
  unfold Table.has
  rw [List.all_eq_true]
  intro name hname
  rw [decide_eq_true_eq, h.columns]
  exact hnames hname

theorem meets (h : Keyed key check columns t) {rows : List ρ} (hnodup : (rows.map key).Nodup)
    (hchecked : ∀ row ∈ rows, check row = true) : t.constraints rows = true := by
  rw [h.constraints]
  unfold keyedBy
  rw [Bool.and_eq_true, List.all_eq_true]
  exact ⟨decide_eq_true hnodup, hchecked⟩

theorem delete (h : Keyed key check columns t) (hnames : names ⊆ columns)
    (which : ρ → Bool) : ∃ t', t.delete names which = .ok t' ∧ Keyed key check columns t' ∧
      ∀ k, t'.find key k = (t.find key k).filter fun row => !which row := by
  have hhas := h.has hnames
  refine ⟨{ t with rows := t.rows.filter fun row => !which row }, ?_, ?_, ?_⟩
  · simp only [Table.delete, hhas, not_true_eq_false, if_false]
  · exact ⟨h.columns, h.constraints, nodup_filter_rows h.nodup _,
      fun row hrow => h.checked row (List.mem_filter.mp hrow).1⟩
  · intro k
    ext row
    rw [find_eq_some (nodup_filter_rows h.nodup _), Option.filter_eq_some_iff,
      find_eq_some h.nodup, List.mem_filter]
    tauto

/-- The row of one key goes. -/
theorem delete_key (h : Keyed key check columns t) (hnames : names ⊆ columns) {k : κ}
    {which : ρ → Bool} (hwhich : ∀ row, which row = true ↔ key row = k) :
    ∃ t', t.delete names which = .ok t' ∧ Keyed key check columns t' ∧
      ∀ j, t'.find key j = if j = k then none else t.find key j := by
  obtain ⟨t', hok, hkeyed, hfind⟩ := h.delete hnames which
  refine ⟨t', hok, hkeyed, ?_⟩
  intro j
  rw [hfind]
  cases hrow : t.find key j with
  | none =>
      rw [Option.filter_none, ite_self]
  | some row =>
      obtain ⟨-, rfl⟩ := (find_eq_some h.nodup).mp hrow
      have hdrop : which row = decide (key row = k) := by
        rw [Bool.eq_iff_iff, hwhich, decide_eq_true_eq]
      rw [Option.filter_some, hdrop]
      by_cases hk : key row = k <;> simp [hk]

theorem update (h : Keyed key check columns t) (hnames : names ⊆ columns)
    (which : ρ → Bool) (change : ρ → ρ) (hchange : ∀ row, key (change row) = key row)
    (hcheck : ∀ row, check row = true → check (change row) = true) :
    ∃ t', t.update names which change = .ok t' ∧ Keyed key check columns t' ∧
      ∀ k, t'.find key k = (t.find key k).map fun row => if which row then change row else row := by
  have hhas := h.has hnames
  have hkeys : ∀ row, key (if which row then change row else row) = key row := by
    intro row
    split
    · exact hchange row
    · rfl
  have hmap : (t.rows.map fun row => if which row then change row else row).map key =
      t.rows.map key := by
    rw [List.map_map]
    exact List.map_congr_left fun row _ => hkeys row
  have hchecked : ∀ row ∈ t.rows.map fun row => if which row then change row else row,
      check row = true := by
    intro row hrow
    obtain ⟨old, hold, rfl⟩ := List.mem_map.mp hrow
    split
    · exact hcheck old (h.checked old hold)
    · exact h.checked old hold
  have hok := h.meets (hmap ▸ h.nodup) hchecked
  refine ⟨{ t with rows := t.rows.map fun row => if which row then change row else row }, ?_, ?_, ?_⟩
  · simp only [Table.update, hhas, not_true_eq_false, if_false, hok, if_true]
  · exact ⟨h.columns, h.constraints, hmap ▸ h.nodup, hchecked⟩
  · intro k
    ext row
    rw [find_eq_some (hmap ▸ h.nodup), Option.map_eq_some_iff]
    simp only [List.mem_map, find_eq_some h.nodup]
    constructor
    · rintro ⟨⟨old, hold, rfl⟩, hk⟩
      exact ⟨old, ⟨hold, (hkeys old) ▸ hk⟩, rfl⟩
    · rintro ⟨old, ⟨hold, hk⟩, rfl⟩
      exact ⟨⟨old, hold, rfl⟩, (hkeys old).trans hk⟩

theorem select_rows (h : Keyed key check columns t) (hnames : names ⊆ columns)
    (which : ρ → Bool) : t.select names which = .ok (t.rows.filter which) := by
  have hhas := h.has hnames
  simp only [Table.select, hhas, not_true_eq_false, if_false]

theorem select (h : Keyed key check columns t) (hnames : names ⊆ columns) {k : κ}
    {which : ρ → Bool} (hwhich : ∀ row, which row = true ↔ key row = k) :
    t.select names which = .ok (t.find key k).toList := by
  rw [h.select_rows hnames]
  congr 1
  cases hfind : t.find key k with
  | none =>
      rw [Option.toList_none, List.filter_eq_nil_iff]
      intro row hrow
      rw [hwhich]
      exact find_eq_none.mp hfind row hrow
  | some row =>
      obtain ⟨hmem, hk⟩ := (find_eq_some h.nodup).mp hfind
      have hnodup : (t.rows.filter which).Nodup := (nodup_filter_rows h.nodup _).of_map
      rw [Option.toList_some, ← List.perm_singleton,
        List.perm_ext_iff_of_nodup hnodup (List.nodup_singleton row)]
      intro r
      rw [List.mem_singleton, List.mem_filter, hwhich]
      constructor
      · rintro ⟨hr, hrk⟩
        exact List.inj_on_of_nodup_map h.nodup hr hmem (hrk.trans hk.symm)
      · rintro rfl
        exact ⟨hmem, hk⟩

theorem insert (h : Keyed key check columns t) (hnames : names ⊆ columns)
    (hcheck : check row = true) (hfresh : t.find key (key row) = none) :
    ∃ t', t.insert names row = .ok t' ∧ Keyed key check columns t' ∧
      ∀ k, t'.find key k = if k = key row then some row else t.find key k := by
  have hhas := h.has hnames
  have hnodup : ((t.rows ++ [row]).map key).Nodup := by
    rw [List.map_append, List.nodup_append]
    refine ⟨h.nodup, List.nodup_singleton _, ?_⟩
    rintro a ha b hb rfl
    obtain ⟨r, hr, rfl⟩ := List.mem_map.mp ha
    exact find_eq_none.mp hfresh r hr (List.mem_singleton.mp hb)
  have hchecked : ∀ r ∈ t.rows ++ [row], check r = true := by
    intro r hr
    rcases List.mem_append.mp hr with hr | hr
    · exact h.checked r hr
    · rwa [List.mem_singleton.mp hr]
  have hok := h.meets hnodup hchecked
  refine ⟨{ t with rows := t.rows ++ [row] }, ?_, ⟨h.columns, h.constraints, hnodup, hchecked⟩, ?_⟩
  · simp only [Table.insert, hhas, not_true_eq_false, if_false, hok, if_true]
  · intro k
    ext r
    rw [find_eq_some hnodup, List.mem_append, List.mem_singleton]
    split
    · rename_i hk
      subst hk
      have hnot : r ∈ t.rows → key r ≠ key row := find_eq_none.mp hfresh r
      rw [Option.some.injEq]
      constructor
      · rintro ⟨hr | hr, hkey⟩
        · exact absurd hkey (hnot hr)
        · exact hr.symm
      · rintro rfl
        exact ⟨.inr rfl, rfl⟩
    · rename_i hk
      rw [find_eq_some h.nodup]
      constructor
      · rintro ⟨hr | rfl, hkey⟩
        · exact ⟨hr, hkey⟩
        · exact absurd hkey.symm hk
      · rintro ⟨hr, hkey⟩
        exact ⟨.inl hr, hkey⟩

theorem insert_conflict (h : Keyed key check columns t) (hnames : names ⊆ columns)
    {old : ρ} (hold : t.find key (key row) = some old) :
    t.insert names row = .error .integrity := by
  have hhas := h.has hnames
  obtain ⟨hmem, hk⟩ := (find_eq_some h.nodup).mp hold
  have hnot : t.constraints (t.rows ++ [row]) = false := by
    rw [h.constraints]
    unfold keyedBy
    rw [Bool.and_eq_false_iff]
    refine .inl (decide_eq_false ?_)
    rw [List.map_append, List.nodup_append]
    rintro ⟨-, -, hdisjoint⟩
    exact hdisjoint (key old) (List.mem_map.mpr ⟨old, hmem, rfl⟩) (key row)
      (List.mem_singleton.mpr rfl) hk
  simp only [Table.insert, hhas, not_true_eq_false, if_false, hnot, Bool.false_eq_true]

end Keyed

end Table

end OpencodeA2a
