import OpencodeA2a.Server.OutputModes
import Mathlib.Data.List.Forall2
import Mathlib.Data.List.ReduceOption

/-!
# What the accepted output modes leave of a payload

The filter of `output_modes.py`, described without its loops: what becomes of each
part, which messages and artifacts go, and that nothing is left to do afterwards.
-/

namespace OpencodeA2a.Server

open OpencodeA2a.Stream

/-! ## §1  Parts -/

/-- What becomes of the parts, in their order. -/
inductive PartsFiltered (py : TextFunctions) (modes : List Text) : List Part → List Part → Prop
  | nil : PartsFiltered py modes [] []
  | keep {p : Part} {ps qs : List Part} (h : p.Acceptable modes) :
      PartsFiltered py modes ps qs → PartsFiltered py modes (p :: ps) (p :: qs)
  | downgrade {p : Part} {d : Json} {ps qs : List Part} (hdata : p.content = .data d)
      (hplain : textPlainMediaType ∈ modes) (hjson : applicationJsonMediaType ∉ modes) :
      PartsFiltered py modes ps qs →
        PartsFiltered py modes (p :: ps) ({ content := .text (py.dumps d) } :: qs)
  | drop {p : Part} {ps qs : List Part} (h : ¬ p.Acceptable modes)
      (hdata : ∀ d, p.content = .data d → textPlainMediaType ∉ modes) :
      PartsFiltered py modes ps qs → PartsFiltered py modes (p :: ps) qs

variable {py : TextFunctions} {modes : List Text}

theorem filterPart_of_acceptable {p : Part} (h : p.Acceptable modes) :
    filterPart py modes p = some p := by
  unfold filterPart
  refine if_pos ?_
  rw [Option.all_eq_true]
  intro mediaType hm
  exact acceptsOutputMode_iff.mpr (h mediaType hm)

theorem acceptable_of_all {p : Part}
    (h : p.mediaType?.all (acceptsOutputMode (some modes)) = true) : p.Acceptable modes := by
  intro mediaType hm
  rw [hm] at h
  exact acceptsOutputMode_iff.mp h

theorem acceptable_data_iff {p : Part} {d : Json} (h : p.content = .data d) :
    p.Acceptable modes ↔ applicationJsonMediaType ∈ modes := by
  have hmedia : p.mediaType? = some applicationJsonMediaType := by
    unfold Part.mediaType?
    rw [h]
  constructor
  · intro hp
    exact hp _ hmedia
  · intro hjson mediaType hm
    rw [hmedia, Option.some.injEq] at hm
    exact hm ▸ hjson

variable (py) in
/-- A part that is not acceptable goes, or is data and shown as text. -/
theorem filterPart_of_not_acceptable {p : Part} (h : ¬ p.Acceptable modes) :
    (∃ d, p.content = .data d ∧ textPlainMediaType ∈ modes ∧
      filterPart py modes p = some { content := .text (py.dumps d) }) ∨
    (∀ d, p.content = .data d → textPlainMediaType ∉ modes) ∧ filterPart py modes p = none := by
  have hnot : ¬ p.mediaType?.all (acceptsOutputMode (some modes)) = true :=
    fun hall => h (acceptable_of_all hall)
  unfold filterPart
  rw [if_neg hnot]
  by_cases hplain : textPlainMediaType ∈ modes
  · rw [if_pos (acceptsOutputMode_iff.mpr hplain)]
    cases hc : p.content with
    | data d => exact Or.inl ⟨d, rfl, hplain, rfl⟩
    | text t =>
        -- text is acceptable where plain text is
        exfalso
        apply h
        intro mediaType hm
        unfold Part.mediaType? at hm
        rw [hc, Option.some.injEq] at hm
        exact hm ▸ hplain
    | raw _ | url _ | unset =>
        right
        refine ⟨?_, rfl⟩
        rintro d ⟨⟩
  · right
    refine ⟨fun _ _ => hplain, if_neg ?_⟩
    rw [acceptsOutputMode_iff]
    exact hplain

theorem partsFiltered_filterParts (parts : List Part) :
    PartsFiltered py modes parts (filterParts py parts modes) := by
  induction parts with
  | nil => exact .nil
  | cons p ps ih =>
      unfold filterParts
      rw [List.filterMap_cons]
      by_cases hp : p.Acceptable modes
      · rw [filterPart_of_acceptable hp]
        exact .keep hp ih
      · rcases filterPart_of_not_acceptable py hp with
          ⟨d, hd, hplain, heq⟩ | ⟨hd, heq⟩
        · rw [heq]
          exact .downgrade hd hplain (fun hjson => hp ((acceptable_data_iff hd).mpr hjson)) ih
        · rw [heq]
          exact .drop hp hd ih

/-- The description leaves no choice. -/
theorem PartsFiltered.eq_filterParts {parts qs : List Part} (h : PartsFiltered py modes parts qs) :
    qs = filterParts py parts modes := by
  induction h with
  | nil => rfl
  | @keep p ps qs hp _ ih =>
      unfold filterParts
      rw [List.filterMap_cons, filterPart_of_acceptable hp, ih]
      rfl
  | @downgrade p d ps qs hd hplain hjson _ ih =>
      have hp : ¬ p.Acceptable modes := fun hp => hjson ((acceptable_data_iff hd).mp hp)
      rcases filterPart_of_not_acceptable py hp with ⟨d', hd', -, heq⟩ | ⟨hno, -⟩
      · rw [hd] at hd'
        cases hd'
        unfold filterParts
        rw [List.filterMap_cons, heq, ih]
        rfl
      · exact absurd hplain (hno d hd)
  | @drop p ps qs hp hd _ ih =>
      rcases filterPart_of_not_acceptable py hp with ⟨d, hd', hplain, -⟩ | ⟨-, heq⟩
      · exact absurd hplain (hd d hd')
      · unfold filterParts
        rw [List.filterMap_cons, heq, ih]
        rfl

theorem partsFiltered_iff {parts qs : List Part} :
    PartsFiltered py modes parts qs ↔ qs = filterParts py parts modes := by
  constructor
  · exact PartsFiltered.eq_filterParts
  · rintro rfl
    exact partsFiltered_filterParts parts

end OpencodeA2a.Server
