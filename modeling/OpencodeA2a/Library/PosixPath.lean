import Mathlib.Data.List.Infix
import Mathlib.Tactic.Cases

/-!
# POSIX paths

Paths as names under a root, and the texts they are written as: separators are slashes,
more of them in a row are as good as one, and `.` is dropped; `..` is a name like any
other. Two slashes at the beginning, and no more, are a root of their own. The text of a
path reads back as the path (`ofText_toText`), so a path is known by its text.
-/

namespace OpencodeA2a.PosixPath

/-! ## §1  Definitions -/

inductive Root where
  | relative
  | slash
  | slashes
deriving DecidableEq

def Root.text : Root → List Char
  | .relative => []
  | .slash => ['/']
  | .slashes => ['/', '/']

/-- A piece between two slashes that counts. -/
def isName (n : List Char) : Bool := n ≠ [] && !n.contains '/' && n ≠ ['.']

structure Path where
  root : Root
  names : List (List Char)
  valid : ∀ n ∈ names, isName n = true
deriving DecidableEq

/-- The root of a text, and what follows it. -/
def splitRoot : List Char → Root × List Char
  | '/' :: '/' :: '/' :: l => (.slash, '/' :: '/' :: l)
  | '/' :: '/' :: l => (.slashes, l)
  | '/' :: l => (.slash, l)
  | l => (.relative, l)

def namesOf (l : List Char) : List (List Char) := (l.splitOn '/').filter isName

def ofText (t : List Char) : Path where
  root := (splitRoot t).1
  names := namesOf (splitRoot t).2
  valid := fun _ hn => (List.mem_filter.mp hn).2

namespace Path

variable (p base : Path)

def toText : List Char :=
  if p.root = .relative ∧ p.names = [] then ['.']
  else p.root.text ++ ['/'].intercalate p.names

def isAbsolute : Bool := p.root ≠ .relative

/-- `base / p` -/
def joinTo : Path :=
  if p.isAbsolute then p
  else
    { root := base.root
      names := base.names ++ p.names
      valid := fun n hn => (List.mem_append.mp hn).elim (base.valid n) (p.valid n) }

/-- The path is the base or lies under it, name by name. -/
def isWithin : Bool := p.root = base.root && base.names.isPrefixOf p.names

end Path

/-! ## §2  Names -/

variable {p q base : Path}

theorem isName_iff {n : List Char} : isName n = true ↔ n ≠ [] ∧ '/' ∉ n ∧ n ≠ ['.'] := by
  simp [isName, and_assoc]

theorem not_mem_of_isName {n : List Char} (h : isName n = true) : '/' ∉ n := (isName_iff.mp h).2.1

theorem namesOf_intercalate {ns : List (List Char)} (h : ∀ n ∈ ns, isName n = true) :
    namesOf (['/'].intercalate ns) = ns := by
  unfold namesOf
  cases ns with
  | nil => rfl
  | cons n ns =>
      rw [List.splitOn_intercalate '/' (fun m hm => not_mem_of_isName (h m hm))
        (List.cons_ne_nil _ _)]
      exact List.filter_eq_self.mpr h

/-- The text of names begins with no slash. -/
theorem head?_intercalate {ns : List (List Char)} (h : ∀ n ∈ ns, isName n = true) :
    (['/'].intercalate ns).head? ≠ some '/' := by
  cases ns with
  | nil => simp
  | cons n ns =>
      obtain ⟨hne, hslash, -⟩ := isName_iff.mp (h n List.mem_cons_self)
      cases n with
      | nil => exact absurd rfl hne
      | cons c n =>
          have hc : c ≠ '/' := fun hc => hslash (hc ▸ List.mem_cons_self)
          cases ns with
          | nil => simpa using hc
          | cons m ns => simpa using hc

/-- What begins with no slash ends a root of one or two of them. -/
theorem splitRoot_text (root : Root) {l : List Char} (h : l.head? ≠ some '/') :
    splitRoot (root.text ++ l) = (root, l) := by
  cases l with
  | nil => cases root <;> rfl
  | cons c l =>
      have hc : c ≠ '/' := fun hc => h (hc ▸ rfl)
      cases root with
      | relative | slash | slashes => simp [Root.text, splitRoot, hc]

/-! ## §3  Texts -/

theorem Path.ext_iff' : p = q ↔ p.root = q.root ∧ p.names = q.names := by
  constructor
  · rintro rfl
    exact ⟨rfl, rfl⟩
  · obtain ⟨root, names, valid⟩ := p
    obtain ⟨root', names', valid'⟩ := q
    rintro ⟨rfl, rfl⟩
    rfl

/-- The text of a path reads back as the path. -/
theorem ofText_toText (p : Path) : ofText p.toText = p := by
  rw [Path.ext_iff']
  unfold Path.toText
  split
  · rename_i hempty
    obtain ⟨hroot, hnil⟩ := hempty
    rw [hroot, hnil]
    exact ⟨rfl, rfl⟩
  · have hsplit := splitRoot_text p.root (head?_intercalate p.valid)
    refine ⟨congrArg Prod.fst hsplit, ?_⟩
    show namesOf (splitRoot _).2 = p.names
    rw [hsplit]
    exact namesOf_intercalate p.valid

theorem toText_ne_nil (p : Path) : p.toText ≠ [] := by
  unfold Path.toText
  split
  · exact List.cons_ne_nil _ _
  · rename_i hne
    intro hnil
    obtain ⟨hroot, htext⟩ := List.append_eq_nil_iff.mp hnil
    cases hr : p.root with
    | relative =>
        refine hne ⟨hr, ?_⟩
        have hnames := namesOf_intercalate p.valid
        rw [htext] at hnames
        exact hnames.symm
    | slash | slashes =>
        rw [hr] at hroot
        cases hroot

/-! ## §4  Lying within -/

theorem isWithin_iff : p.isWithin base = true ↔ p.root = base.root ∧ base.names <+: p.names := by
  unfold Path.isWithin
  rw [Bool.and_eq_true, decide_eq_true_iff, List.isPrefixOf_iff_prefix]

theorem isWithin_refl (p : Path) : p.isWithin p = true :=
  isWithin_iff.mpr ⟨rfl, List.prefix_refl _⟩

theorem joinTo_of_isAbsolute (h : p.isAbsolute = true) : p.joinTo base = p := if_pos h

/-! ## §5  Going up -/

def dots : List Char := ['.', '.']

/-- One more name below the path, or back up; nothing is above the root. -/
def enter (names : List (List Char)) (n : List Char) : List (List Char) :=
  if n = dots then names.dropLast else names ++ [n]

theorem mem_of_mem_enter {names : List (List Char)} {n m : List Char} (h : m ∈ enter names n) :
    m ∈ names ∨ m = n ∧ n ≠ dots := by
  unfold enter at h
  split at h
  · exact .inl (List.mem_of_mem_dropLast h)
  · rename_i hn
    rcases List.mem_append.mp h with hmem | hmem
    · exact .inl hmem
    · exact .inr ⟨List.mem_singleton.mp hmem, hn⟩

theorem mem_of_mem_foldl_enter {ns names : List (List Char)} {m : List Char}
    (h : m ∈ ns.foldl enter names) : m ∈ names ∨ m ∈ ns ∧ m ≠ dots := by
  induction ns generalizing names with
  | nil => exact .inl h
  | cons n ns ih =>
      rcases ih h with hmem | ⟨hmem, hne⟩
      · rcases mem_of_mem_enter hmem with hmem | ⟨rfl, hne⟩
        · exact .inl hmem
        · exact .inr ⟨List.mem_cons_self, hne⟩
      · exact .inr ⟨List.mem_cons_of_mem n hmem, hne⟩

theorem foldl_enter_of_not_mem {ns : List (List Char)} (names : List (List Char))
    (h : dots ∉ ns) : ns.foldl enter names = names ++ ns := by
  induction ns generalizing names with
  | nil => exact (List.append_nil names).symm
  | cons n ns ih =>
      have hn : n ≠ dots := fun hn => h (hn ▸ List.mem_cons_self)
      rw [List.foldl_cons, ih _ fun hmem => h (List.mem_cons_of_mem n hmem), enter, if_neg hn,
        List.append_assoc]
      rfl

/-- The path without `..`, where no name is a link. -/
def Path.normalize (p : Path) : Path where
  root := p.root
  names := p.names.foldl enter []
  valid := by
    intro n hn
    rcases mem_of_mem_foldl_enter hn with hnil | ⟨hmem, -⟩
    · cases hnil
    · exact p.valid n hmem

theorem Path.dots_not_mem_normalize (p : Path) : dots ∉ p.normalize.names := by
  intro h
  rcases mem_of_mem_foldl_enter h with hnil | ⟨-, hne⟩
  · cases hnil
  · exact hne rfl

theorem Path.normalize_normalize (p : Path) : p.normalize.normalize = p.normalize :=
  Path.ext_iff'.mpr ⟨rfl, foldl_enter_of_not_mem [] p.dots_not_mem_normalize⟩

theorem isAbsolute_joinTo (h : base.isAbsolute = true) : (p.joinTo base).isAbsolute = true := by
  unfold Path.joinTo
  split
  · assumption
  · exact h

end OpencodeA2a.PosixPath
