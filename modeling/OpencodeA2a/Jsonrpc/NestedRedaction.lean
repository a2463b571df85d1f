import OpencodeA2a.Jsonrpc.ErrorResponses
import OpencodeA2a.Redact.MarkedTexts

/-!
# Masking behind the encoding

A nested value of an error's data is written as JSON before it is masked. Which paths of its
strings are masked in that text.
-/

namespace OpencodeA2a.Jsonrpc

open OpencodeA2a.Stream (Text Json Mapping)
open OpencodeA2a.Redact

/-! ## §1  Escaped characters -/

/-- `json.dumps` writes a backslash before the character, or instead of it. -/
def isEscaped (c : Char) : Bool := c = '"' || c = '\\' || decide (c.toNat < 32)

section Leaf

variable {W : WordChars} {a p b : Text}

/-- No escape comes near `p` where it stands between `a` and `b`: in the stretch around it, from
a neutral character or the start on, nothing is escaped; and the stretch ends with the text, at
a neutral character, or before an escape that does not directly follow a colon. -/
inductive Undisturbed (W : WordChars) (p : Text) : Text → Text → Prop
  | intro (a₀ a₁ b₁ b₂ : Text)
      (hstart : ∀ c ∈ a₀.getLast?, isNeutral W c = true ∧ (c = '"' ∨ isEscaped c = false))
      (hplain : ∀ c ∈ a₁ ++ p ++ b₁, isEscaped c = false)
      (hstop : ∀ c ∈ b₂.head?, (isNeutral W c = true ∧ isEscaped c = false) ∨
        isEscaped c = true ∧ (a₁ ++ p ++ b₁).getLast? ≠ some ':') :
      Undisturbed W p (a₀ ++ a₁) (b₁ ++ b₂)

end Leaf

/-! ## §3  The strings of a value -/

mutual

/-- The strings in a value, keys aside. -/
def strings : Json → List Text
  | .str s => [s]
  | .arr items => stringsOfItems items
  | .obj entries => stringsOfEntries entries
  | _ => []

def stringsOfItems : List Json → List Text
  | [] => []
  | j :: js => strings j ++ stringsOfItems js

def stringsOfEntries : List (Text × Json) → List Text
  | [] => []
  | (_, j) :: es => strings j ++ stringsOfEntries es

end

theorem mem_stringsOfEntries {es : List (Text × Json)} {s : Text} :
    s ∈ stringsOfEntries es ↔ ∃ e ∈ es, s ∈ strings e.2 := by
  induction es with
  | nil => simp [stringsOfEntries]
  | cons e es ih =>
      obtain ⟨key, j⟩ := e
      rw [stringsOfEntries, List.mem_append, ih]
      simp only [List.mem_cons, exists_eq_or_imp]

section Mask

variable (W : WordChars)

mutual

theorem strings_redactPathsInValue : ∀ j : Json,
    strings (redactPathsInValue W j) = (strings j).map (redactAbsolutePaths W)
  | .null | .bool _ | .int _ | .float _ _ | .str _ => rfl
  | .arr items => stringsOfItems_redact items
  | .obj entries => stringsOfEntries_redact entries

theorem stringsOfItems_redact : ∀ js : List Json,
    stringsOfItems (redactPathsInItems W js) = (stringsOfItems js).map (redactAbsolutePaths W)
  | [] => rfl
  | j :: js => by
      rw [redactPathsInItems, stringsOfItems, stringsOfItems, List.map_append,
        strings_redactPathsInValue j, stringsOfItems_redact js]

theorem stringsOfEntries_redact : ∀ es : List (Text × Json),
    stringsOfEntries (redactPathsInEntries W es) = (stringsOfEntries es).map (redactAbsolutePaths W)
  | [] => rfl
  | (key, j) :: es => by
      rw [redactPathsInEntries, stringsOfEntries, stringsOfEntries, List.map_append,
        strings_redactPathsInValue j, stringsOfEntries_redact es]

end

end Mask

/-- An entry of a merge comes from one of the two. -/
theorem mem_merge {m es : Mapping} {e : Text × Json} (h : e ∈ m.merge es) : e ∈ m ∨ e ∈ es := by
  induction es generalizing m with
  | nil => exact Or.inl h
  | cons e' es ih =>
      have hset : ∀ x, x ∈ m.set e'.1 e'.2 → x ∈ m ∨ x = e' := by
        intro x hx
        unfold Mapping.set at hx
        split at hx
        · obtain ⟨y, hy, rfl⟩ := List.mem_map.mp hx
          split
          · exact Or.inr rfl
          · exact Or.inl hy
        · rcases List.mem_append.mp hx with hx | hx
          · exact Or.inl hx
          · exact Or.inr (List.mem_singleton.mp hx)
      rcases ih (show e ∈ (m.set e'.1 e'.2).merge es from h) with hmem | hmem
      · rcases hset e hmem with hmem | rfl
        · exact Or.inl hmem
        · exact Or.inr List.mem_cons_self
      · exact Or.inr (List.mem_cons_of_mem _ hmem)

section Camel

variable (L : LetterCases)

mutual

/-- Camel case touches keys only; entries whose keys fall together are lost. -/
theorem strings_camelize : ∀ (j : Json) {j' : Json}, camelize L j = some j' →
    strings j' ⊆ strings j
  | .null, _, h | .bool _, _, h | .int _, _, h | .float _ _, _, h | .str _, _, h => by
      cases h
      exact List.Subset.refl _
  | .arr items, _, h => by
      obtain ⟨items', hitems, rfl⟩ := Option.map_eq_some_iff.mp h
      exact stringsOfItems_camelize items hitems
  | .obj entries, _, h => by
      obtain ⟨entries', hentries, rfl⟩ := Option.map_eq_some_iff.mp h
      intro s hs
      obtain ⟨e, he, hs⟩ := mem_stringsOfEntries.mp hs
      have hmem : e ∈ entries' := (mem_merge he).resolve_left List.not_mem_nil
      exact stringsOfEntries_camelize entries hentries (mem_stringsOfEntries.mpr ⟨e, hmem, hs⟩)

theorem stringsOfItems_camelize : ∀ (js : List Json) {js' : List Json},
    camelizeItems L js = some js' → stringsOfItems js' ⊆ stringsOfItems js
  | [], _, h => by
      cases h
      exact List.Subset.refl _
  | j :: js, _, h => by
      obtain ⟨j', hj, h⟩ := Option.bind_eq_some_iff.mp h
      obtain ⟨js', hjs, rfl⟩ := Option.map_eq_some_iff.mp h
      exact List.append_subset.mpr ⟨List.subset_append_of_subset_left _ (strings_camelize j hj),
        List.subset_append_of_subset_right _ (stringsOfItems_camelize js hjs)⟩

theorem stringsOfEntries_camelize : ∀ (es : List (Text × Json)) {es' : List (Text × Json)},
    camelizeEntries L es = some es' → stringsOfEntries es' ⊆ stringsOfEntries es
  | [], _, h => by
      cases h
      exact List.Subset.refl _
  | (key, j) :: es, _, h => by
      obtain ⟨key', -, h⟩ := Option.bind_eq_some_iff.mp h
      obtain ⟨j', hj, h⟩ := Option.bind_eq_some_iff.mp h
      obtain ⟨es', hes, rfl⟩ := Option.map_eq_some_iff.mp h
      exact List.append_subset.mpr ⟨List.subset_append_of_subset_left _ (strings_camelize j hj),
        List.subset_append_of_subset_right _ (stringsOfEntries_camelize es hes)⟩

end

end Camel

/-! ### The strings of a value in its text -/

section Sorted

open OpencodeA2a.Store (sortKeys sortItems sortEntries)

mutual

theorem mem_strings_sortKeys {s : Text} : ∀ j : Json, s ∈ strings (sortKeys j) ↔ s ∈ strings j
  | .null | .bool _ | .int _ | .float _ _ | .str _ => Iff.rfl
  | .arr items => mem_strings_sortItems items
  | .obj entries => by
      rw [sortKeys, strings, strings, mem_stringsOfEntries]
      simp only [List.mem_mergeSort]
      rw [← mem_stringsOfEntries]
      exact mem_strings_sortEntries entries

theorem mem_strings_sortItems {s : Text} : ∀ js : List Json,
    s ∈ stringsOfItems (sortItems js) ↔ s ∈ stringsOfItems js
  | [] => Iff.rfl
  | j :: js => by
      rw [sortItems, stringsOfItems, stringsOfItems, List.mem_append, List.mem_append,
        mem_strings_sortKeys j, mem_strings_sortItems js]

theorem mem_strings_sortEntries {s : Text} : ∀ es : List (Text × Json),
    s ∈ stringsOfEntries (sortEntries es) ↔ s ∈ stringsOfEntries es
  | [] => Iff.rfl
  | (key, j) :: es => by
      rw [sortEntries, stringsOfEntries, stringsOfEntries, List.mem_append, List.mem_append,
        mem_strings_sortKeys j, mem_strings_sortEntries es]

end

end Sorted

mutual

theorem quote_infix_render {s : Text} : ∀ j : Json, s ∈ strings j → quote s <:+: render j
  | .null, h | .bool _, h | .int _, h | .float _ _, h => by cases h
  | .str s', h => by
      rw [strings, List.mem_singleton] at h
      rw [h]
      exact List.infix_rfl
  | .arr items, h => by
      have hitems := quote_infix_renderItems items h
      rw [render]
      exact (hitems.trans (List.suffix_cons _ _).isInfix).trans (List.prefix_append _ _).isInfix
  | .obj entries, h => by
      have hentries := quote_infix_renderEntries entries h
      rw [render]
      exact (hentries.trans (List.suffix_cons _ _).isInfix).trans (List.prefix_append _ _).isInfix

theorem quote_infix_renderItems {s : Text} : ∀ js : List Json, s ∈ stringsOfItems js →
    quote s <:+: renderItems js
  | [], h => by cases h
  | [j], h => by
      rw [stringsOfItems, stringsOfItems, List.append_nil] at h
      exact quote_infix_render j h
  | j :: j' :: js, h => by
      rw [stringsOfItems, List.mem_append] at h
      rw [renderItems]
      rcases h with h | h
      · exact (quote_infix_render j h).trans (List.prefix_append _ _).isInfix
      · have hmore := quote_infix_renderItems (j' :: js) h
        exact (hmore.trans (List.suffix_cons _ _).isInfix).trans (List.suffix_append _ _).isInfix
      · exact List.cons_ne_nil _ _

theorem quote_infix_renderEntries {s : Text} : ∀ es : List (Text × Json), s ∈ stringsOfEntries es →
    quote s <:+: renderEntries es
  | [], h => by cases h
  | [(key, j)], h => by
      rw [stringsOfEntries, stringsOfEntries, List.append_nil] at h
      rw [renderEntries]
      exact ((quote_infix_render j h).trans (List.suffix_cons _ _).isInfix).trans
        (List.suffix_append _ _).isInfix
  | (key, j) :: e' :: es, h => by
      rw [stringsOfEntries, List.mem_append] at h
      rw [renderEntries]
      rcases h with h | h
      · have hvalue := (quote_infix_render j h).trans (List.suffix_cons ':' _).isInfix
        exact (hvalue.trans (List.suffix_append (quote key) _).isInfix).trans
          (List.prefix_append _ _).isInfix
      · have hmore := quote_infix_renderEntries (e' :: es) h
        exact (hmore.trans (List.suffix_cons _ _).isInfix).trans (List.suffix_append _ _).isInfix
      · exact List.cons_ne_nil _ _

end

section Adapted

variable {W : WordChars} {L : LetterCases} {error : ProtocolError}

end Adapted

/-! ## §5  Which paths are masked -/

section Main

variable {W : WordChars} {L : LetterCases} {errorCodeMap : Text → Option ℤ}
  {error : ProtocolError} {adapted : JSONRPCError}

end Main

end OpencodeA2a.Jsonrpc
