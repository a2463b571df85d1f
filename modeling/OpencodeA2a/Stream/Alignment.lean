import OpencodeA2a.Library.Strip
import Mathlib.Tactic.SplitIfs

/-!
# Merging deltas with stripped snapshots

The abstract form of what `consume` does to one part: a text that only grows is
reported by deltas, which carry what was appended, and by snapshots, which carry
the whole text stripped. The merger keeps a buffer, shows every delta, and shows
of a snapshot what it adds to the buffer, if it extends the buffer at all.

What was shown agrees with the text, up to the blanks around both, exactly as
long as `Alignment.next` can go on. Blanks are elements that satisfy `p`.
-/

namespace OpencodeA2a.Stream

open Strip

variable {α : Type} (p : α → Bool) [DecidableEq α]

/-! ## §1  The merger -/

/-- One report of a growing text, with what the text has grown by. -/
inductive Growth (α : Type) where
  | delta (x : List α)
  | snapshot (x : List α)

def Growth.added : Growth α → List α
  | .delta x => x
  | .snapshot x => x

/-- The merger's buffer and what it has shown so far, next to the text. -/
structure Merger (α : Type) where
  buffer : List α := []
  shown : List α := []
  text : List α := []

/-- A delta is appended; a stripped snapshot, unless it is empty, becomes the
buffer, and what it adds to the buffer is shown. -/
def Merger.next (m : Merger α) : Growth α → Merger α
  | .delta x => ⟨m.buffer ++ x, m.shown ++ x, m.text ++ x⟩
  | .snapshot x =>
      let snapshot := strip p (m.text ++ x)
      if snapshot = [] then ⟨m.buffer, m.shown, m.text ++ x⟩
      else if m.buffer <+: snapshot then
        ⟨snapshot, m.shown ++ snapshot.drop m.buffer.length, m.text ++ x⟩
      else ⟨snapshot, m.shown, m.text ++ x⟩

def Merger.run (m : Merger α) : List (Growth α) → Merger α
  | [] => m
  | g :: gs => (m.next p g).run gs

/-! ## §2  The condition -/

/-- How the buffer lies against the text.

`fresh`: no snapshot has shown anything yet, `seen` are the deltas so far.

`anchored`: the last snapshot cut the blanks `cut` off the text, while what had
been shown ended in the blanks `shown`; deltas have since appended `added`. -/
inductive Alignment (α : Type) where
  | fresh (seen : List α)
  | anchored (cut shown added : List α)

namespace Alignment

/-- The alignment after a report; `none` where what is shown goes wrong. -/
def next : Alignment α → Growth α → Option (Alignment α)
  | .fresh seen, .delta x => some (.fresh (seen ++ x))
  | .fresh seen, .snapshot x =>
      if Blank p (seen ++ x) then some (.fresh seen)
      else if Blank p x then some (.anchored (seen.rtakeWhile p ++ x) (seen.rtakeWhile p) [])
      -- new text, after deltas that began with blanks, is no extension of the buffer
      else if seen.dropWhile p = seen then some (.anchored (x.rtakeWhile p) [] [])
      else none
  | .anchored cut shown added, .delta x =>
      -- new text follows the cut blanks, what is shown goes on after the shown ones
      if ¬ Blank p x ∧ Blank p added ∧ shown ≠ cut then none
      else some (.anchored cut shown (added ++ x))
  | .anchored cut shown added, .snapshot x =>
      if Blank p x then
        if Blank p added then some (.anchored (cut ++ added ++ x) (shown ++ added) [])
        else some (.anchored (added.rtakeWhile p ++ x) (added.rtakeWhile p) [])
      else if Blank p added then
        -- the snapshot brings the cut blanks back, before the added ones
        if shown = [] ∧ added <+: cut ++ added then some (.anchored (x.rtakeWhile p) [] [])
        else none
      else if cut = [] then some (.anchored (x.rtakeWhile p) [] [])
      else none

def run (a : Alignment α) : List (Growth α) → Option (Alignment α)
  | [] => some a
  | g :: gs => (a.next p g).bind fun a' => a'.run gs

end Alignment

variable {p}

/-! ## §3  Counting: the merger never shows more than there is -/

/-- The buffer holds all solid elements of the text, and no more of them were
shown. -/
structure Merger.Level (p : α → Bool) (m : Merger α) : Prop where
  buffer : (solid p m.buffer).length = (solid p m.text).length
  shown : (solid p m.shown).length ≤ (solid p m.text).length

/-- One report: what is shown grows by `v`, the text by `t`. -/
theorem Merger.next_grows {m : Merger α} (h : m.Level p) (g : Growth α) :
    ∃ v t, (m.next p g).shown = m.shown ++ v ∧ (m.next p g).text = m.text ++ t ∧
      (solid p v).length ≤ (solid p t).length ∧ (m.next p g).Level p := by
  cases g with
  | delta x =>
      refine ⟨x, x, rfl, rfl, Nat.le_refl _, ?_, ?_⟩
      · simp only [Merger.next, solid_append, List.length_append, h.buffer]
      · have := h.shown
        simp only [Merger.next, solid_append, List.length_append]
        omega
  | snapshot x =>
      have hbuf := h.buffer
      have hshown := h.shown
      have hstrip : (solid p (strip p (m.text ++ x))).length =
          (solid p m.text).length + (solid p x).length := by
        rw [solid_strip, solid_append, List.length_append]
      simp only [Merger.next]
      split_ifs with hnil hpre
      · refine ⟨[], x, by simp, rfl, by simp [solid], ?_, ?_⟩
        · have hzero : (solid p ([] : List α)).length = 0 := rfl
          rw [hnil, hzero] at hstrip
          simp only [solid_append, List.length_append]
          omega
        · simp only [solid_append, List.length_append]
          omega
      · obtain ⟨v, hv⟩ := hpre
        have hdrop : (strip p (m.text ++ x)).drop m.buffer.length = v := by
          rw [← hv, List.drop_left]
        rw [hdrop]
        have hcount : (solid p m.buffer).length + (solid p v).length =
            (solid p m.text).length + (solid p x).length := by
          rw [← hstrip, ← hv, solid_append, List.length_append]
        refine ⟨v, x, rfl, rfl, by omega, ?_, ?_⟩
        · simp only [solid_append, List.length_append]
          omega
        · simp only [solid_append, List.length_append]
          omega
      · refine ⟨[], x, by simp, rfl, by simp [solid], ?_, ?_⟩
        · simp only [solid_append, List.length_append]
          omega
        · simp only [solid_append, List.length_append]
          omega

theorem Merger.level_run {m : Merger α} (h : m.Level p) (gs : List (Growth α)) :
    (m.run p gs).Level p := by
  induction gs generalizing m with
  | nil => exact h
  | cons g gs ih =>
      obtain ⟨-, -, -, -, -, hlevel⟩ := Merger.next_grows h g
      exact ih hlevel

/-- As long as nothing was shown, nothing is in the buffer. -/
theorem Merger.next_shown_nil {m : Merger α} (h : m.shown = [] → m.buffer = []) (g : Growth α)
    (hnil : (m.next p g).shown = []) : (m.next p g).buffer = [] := by
  cases g with
  | delta x =>
      obtain ⟨hshown, hx⟩ := List.append_eq_nil_iff.mp hnil
      show m.buffer ++ x = []
      rw [h hshown, hx, List.append_nil]
  | snapshot x =>
      simp only [Merger.next] at hnil ⊢
      split_ifs at hnil ⊢ with hs hpre
      · exact h hnil
      · obtain ⟨hshown, hdrop⟩ := List.append_eq_nil_iff.mp hnil
        rw [h hshown] at hdrop
        exact hdrop
      · rw [h hnil] at hpre
        exact absurd List.nil_prefix hpre

/-- What was shown agrees with the text up to surrounding blanks. -/
def Merger.Faithful (p : α → Bool) (m : Merger α) : Prop := strip p m.shown = strip p m.text

/-- What has gone wrong once stays wrong. -/
theorem Merger.not_faithful_run {m : Merger α} (h : m.Level p) (hne : ¬ m.Faithful p)
    (gs : List (Growth α)) : ¬ (m.run p gs).Faithful p := by
  induction gs generalizing m with
  | nil => exact hne
  | cons g gs ih =>
      obtain ⟨v, t, hshown, htext, hle, hlevel⟩ := Merger.next_grows h g
      refine ih hlevel ?_
      unfold Merger.Faithful
      rw [hshown, htext]
      exact strip_ne_of_strip_ne h.shown hle hne

/-! ## §4  What an alignment says -/

/-- The merger's state, taken apart at the last anchor. -/
inductive Alignment.Holds (p : α → Bool) : Alignment α → Merger α → Prop
  | fresh {seen text : List α} (h : text.dropWhile p = seen.dropWhile p) :
      Holds p (.fresh seen) ⟨seen, seen, text⟩
  | anchored {cut shown added core b b' : List α} (hb : Blank p b) (hb' : Blank p b')
      (hcore : Core p core) (hcut : Blank p cut) (hshown : Blank p shown)
      (hadded : ¬ Blank p added → shown = cut) :
      Holds p (.anchored cut shown added)
        ⟨core ++ added, b ++ (core ++ (shown ++ added)), b' ++ (core ++ (cut ++ added))⟩

variable {a a' : Alignment α} {m : Merger α}

omit [DecidableEq α] in
/-- A merger that is aligned has shown the text, the blanks around it aside. -/
theorem Alignment.Holds.faithful (h : a.Holds p m) : m.Faithful p := by
  unfold Merger.Faithful
  cases h with
  | fresh h => exact strip_congr_dropWhile h.symm
  | @anchored cut shown added core b b' hb hb' hcore hcut hshown hadded =>
      show strip p (b ++ (core ++ (shown ++ added))) = strip p (b' ++ (core ++ (cut ++ added)))
      rw [strip_core_append hb hcore, strip_core_append hb' hcore]
      by_cases hblank : Blank p added
      · rw [(hshown.append hblank).rdropWhile, (hcut.append hblank).rdropWhile]
      · rw [hadded hblank]

omit [DecidableEq α] in
theorem Alignment.Holds.level (h : a.Holds p m) : m.Level p := by
  cases h with
  | @fresh seen text h =>
      have hstrip : strip p seen = strip p text := strip_congr_dropWhile h.symm
      have hcount := congrArg (fun l => (solid p l).length) hstrip
      simp only [solid_strip] at hcount
      exact ⟨hcount, Nat.le_of_eq hcount⟩
  | @anchored cut shown added core b b' hb hb' hcore hcut hshown hadded =>
      constructor
      · simp [solid_append, solid_blank hb', solid_blank hcut]
      · simp [solid_append, solid_blank hb, solid_blank hb', solid_blank hcut, solid_blank hshown]

omit [DecidableEq α] in
/-- The text is shown and the buffer is its core: its end anchors the merger. -/
theorem Alignment.Holds.anchor {text shown : List α} (htext : ¬ Blank p text)
    (h : strip p shown = strip p text) :
    Alignment.Holds p (.anchored (text.rtakeWhile p) (shown.rtakeWhile p) [])
      ⟨strip p text, shown, text⟩ := by
  have hshown : ¬ Blank p shown := by
    rw [blank_iff_strip, h, ← blank_iff_strip]
    exact htext
  obtain ⟨b, hb, hs⟩ := eq_append_strip shown hshown
  obtain ⟨b', hb', ht⟩ := eq_append_strip text htext
  rw [h] at hs
  have hadded : ¬ Blank p [] → shown.rtakeWhile p = text.rtakeWhile p :=
    fun hne => absurd blank_nil hne
  have hanchored := Alignment.Holds.anchored hb hb' (core_strip htext)
    (blank_rtakeWhile (l := text)) (blank_rtakeWhile (l := shown)) hadded
  simp only [List.append_nil] at hanchored
  rw [← hs, ← ht] at hanchored
  exact hanchored

/-! ## §5  Snapshots -/

/-- A snapshot that adds nothing solid shows nothing. -/
theorem Merger.next_snapshot_blank {x : List α} (hlevel : m.Level p) (hf : m.Faithful p)
    (htext : ¬ Blank p (m.text ++ x)) (hx : Blank p x) :
    Alignment.Holds p (.anchored ((m.text ++ x).rtakeWhile p) (m.shown.rtakeWhile p) [])
      (m.next p (.snapshot x)) := by
  have hnext : m.next p (.snapshot x) = ⟨strip p (m.text ++ x), m.shown, m.text ++ x⟩ := by
    have hcore := core_strip htext
    simp only [Merger.next]
    rw [if_neg hcore.1]
    split_ifs with hpre
    · obtain ⟨v, hv⟩ := hpre
      have hcount := congrArg (fun l => (solid p l).length) hv
      simp only [solid_strip, solid_append, List.length_append, solid_blank hx, hlevel.buffer,
        List.length_nil] at hcount
      have hsolid : solid p v = [] := List.eq_nil_of_length_eq_zero (by omega)
      rw [← hv] at hcore
      have hnil : v = [] := hcore.eq_nil_of_append (blank_iff_solid.mpr hsolid)
      rw [← hv, List.drop_left, hnil, List.append_nil, List.append_nil]
    · rfl
  rw [hnext]
  refine Alignment.Holds.anchor htext ?_
  rw [strip_append_blank hx]
  exact hf

/-- A snapshot with new text that extends the buffer anchors the merger, where
it brings what was shown up to the text. -/
theorem Merger.next_snapshot_extends {x v : List α} (hx : ¬ Blank p x)
    (hv : m.buffer ++ v = strip p (m.text ++ x)) (hlevel : m.Level p)
    (hf : strip p (m.shown ++ v) = strip p (m.text ++ x)) :
    Alignment.Holds p (.anchored (x.rtakeWhile p) [] []) (m.next p (.snapshot x)) := by
  have htext : ¬ Blank p (m.text ++ x) := fun h => hx (blank_append_iff.mp h).2
  have hcore := core_strip htext
  have hnext : m.next p (.snapshot x) = ⟨strip p (m.text ++ x), m.shown ++ v, m.text ++ x⟩ := by
    simp only [Merger.next]
    rw [if_neg hcore.1, if_pos ⟨v, hv⟩, ← hv, List.drop_left]
  have hvsolid : ¬ Blank p v := by
    intro hb
    have hcount := congrArg (fun l => (solid p l).length) hv
    simp only [solid_strip, solid_append, List.length_append, solid_blank hb, hlevel.buffer,
      List.length_nil] at hcount
    exact hx (blank_iff_solid.mpr (List.eq_nil_of_length_eq_zero (by omega)))
  have hend : v.rtakeWhile p = [] := by
    rw [← rtakeWhile_append m.buffer hvsolid, hv, hcore.rtakeWhile]
  have hanchor := Alignment.Holds.anchor htext hf
  rw [rtakeWhile_append _ hx, rtakeWhile_append _ hvsolid, hend] at hanchor
  rw [hnext]
  exact hanchor

/-- It is shown wrongly where it does not. -/
theorem Merger.not_faithful_extends {x v : List α} (hx : ¬ Blank p x)
    (hv : m.buffer ++ v = strip p (m.text ++ x))
    (hf : strip p (m.shown ++ v) ≠ strip p (m.text ++ x)) :
    ¬ (m.next p (.snapshot x)).Faithful p := by
  have htext : ¬ Blank p (m.text ++ x) := fun h => hx (blank_append_iff.mp h).2
  unfold Merger.Faithful
  simp only [Merger.next]
  rw [if_neg (core_strip htext).1, if_pos ⟨v, hv⟩, ← hv, List.drop_left, hv]
  exact hf

/-- A snapshot with new text that does not extend the buffer is not shown. -/
theorem Merger.not_faithful_rewrite {x : List α} (hx : ¬ Blank p x) (hlevel : m.Level p)
    (hpre : ¬ m.buffer <+: strip p (m.text ++ x)) :
    ¬ (m.next p (.snapshot x)).Faithful p := by
  have htext : ¬ Blank p (m.text ++ x) := fun h => hx (blank_append_iff.mp h).2
  unfold Merger.Faithful
  simp only [Merger.next]
  rw [if_neg (core_strip htext).1, if_neg hpre]
  refine strip_ne_of_solid_lt ?_
  have hshown := hlevel.shown
  have hpos : 0 < (solid p x).length := by
    rw [List.length_pos_iff]
    exact fun h => hx (blank_iff_solid.mpr h)
  show (solid p m.shown).length < (solid p (m.text ++ x)).length
  rw [solid_append, List.length_append]
  omega

/-! ## §6  One report -/

theorem Alignment.fresh_delta {seen text x : List α}
    (h : text.dropWhile p = seen.dropWhile p) :
    Alignment.Holds p (.fresh (seen ++ x)) (Merger.next p ⟨seen, seen, text⟩ (.delta x)) :=
  .fresh (dropWhile_append_congr h x)

theorem Alignment.fresh_snapshot {seen text x : List α}
    (h : text.dropWhile p = seen.dropWhile p) :
    match (Alignment.fresh seen).next p (.snapshot x) with
    | some a' => a'.Holds p (Merger.next p ⟨seen, seen, text⟩ (.snapshot x))
    | none => ¬ (Merger.next p ⟨seen, seen, text⟩ (.snapshot x)).Faithful p := by
  have hholds : Alignment.Holds p (.fresh seen) ⟨seen, seen, text⟩ := .fresh h
  have hdrop := dropWhile_append_congr h x
  have hstrip : strip p (text ++ x) = strip p (seen ++ x) := strip_congr_dropWhile hdrop
  have hiff : Blank p (text ++ x) ↔ Blank p (seen ++ x) := by
    rw [blank_iff_strip, hstrip, ← blank_iff_strip]
  simp only [Alignment.next]
  by_cases hblank : Blank p (seen ++ x)
  · rw [if_pos hblank]
    have hnext : Merger.next p ⟨seen, seen, text⟩ (.snapshot x) = ⟨seen, seen, text ++ x⟩ := by
      simp only [Merger.next]
      rw [if_pos (blank_iff_strip.mp (hiff.mpr hblank))]
    rw [hnext]
    refine .fresh ?_
    rw [(hiff.mpr hblank).dropWhile, (blank_append_iff.mp hblank).1.dropWhile]
  · rw [if_neg hblank]
    have htext : ¬ Blank p (text ++ x) := fun hb => hblank (hiff.mp hb)
    by_cases hx : Blank p x
    · rw [if_pos hx]
      have hend : (text ++ x).rtakeWhile p = seen.rtakeWhile p ++ x := by
        rw [← rtakeWhile_dropWhile htext, hdrop, rtakeWhile_dropWhile hblank,
          rtakeWhile_append_blank hx]
      have hanchor := Merger.next_snapshot_blank hholds.level hholds.faithful htext hx
      rw [hend] at hanchor
      exact hanchor
    · rw [if_neg hx]
      by_cases hseen : seen.dropWhile p = seen
      · rw [if_pos hseen]
        have hpre : seen <+: strip p (text ++ x) := by
          rw [hstrip]
          by_cases hb : Blank p seen
          · have hnil : seen = [] := by rw [← hseen, hb.dropWhile]
            rw [hnil]
            exact List.nil_prefix
          · refine ⟨x.rdropWhile p, ?_⟩
            unfold strip
            rw [dropWhile_append hb, hseen, rdropWhile_append hx]
        obtain ⟨v, hv⟩ := hpre
        refine Merger.next_snapshot_extends hx hv hholds.level ?_
        show strip p (seen ++ v) = strip p (text ++ x)
        rw [hv]
        exact (core_strip htext).2
      · rw [if_neg hseen]
        refine Merger.not_faithful_rewrite hx hholds.level ?_
        intro hpre
        exact hseen (dropWhile_prefix_self hpre (core_strip htext).dropWhile)

theorem Alignment.anchored_delta {cut shown added x : List α}
    (h : Alignment.Holds p (.anchored cut shown added) m) :
    match (Alignment.anchored cut shown added).next p (.delta x) with
    | some a' => a'.Holds p (m.next p (.delta x))
    | none => ¬ (m.next p (.delta x)).Faithful p := by
  cases h with
  | @anchored _ _ _ core b b' hb hb' hcore hcut hshown hadded =>
      have hnext : Merger.next p ⟨core ++ added, b ++ (core ++ (shown ++ added)),
          b' ++ (core ++ (cut ++ added))⟩ (.delta x) =
          ⟨core ++ (added ++ x), b ++ (core ++ (shown ++ (added ++ x))),
            b' ++ (core ++ (cut ++ (added ++ x)))⟩ := by
        simp only [Merger.next, List.append_assoc]
      rw [hnext]
      simp only [Alignment.next]
      by_cases hbad : ¬ Blank p x ∧ Blank p added ∧ shown ≠ cut
      · rw [if_pos hbad]
        obtain ⟨hx, hblank, hne⟩ := hbad
        intro hf
        have heq : strip p (b ++ (core ++ (shown ++ (added ++ x)))) =
            strip p (b' ++ (core ++ (cut ++ (added ++ x)))) := hf
        rw [strip_core_append hb hcore, strip_core_append hb' hcore, ← List.append_assoc shown,
          ← List.append_assoc cut, rdropWhile_append hx, rdropWhile_append hx,
          List.append_assoc, List.append_assoc] at heq
        exact hne (List.append_cancel_right (List.append_cancel_left heq))
      · rw [if_neg hbad]
        refine .anchored hb hb' hcore hcut hshown ?_
        intro hsolid
        by_cases hblank : Blank p added
        · have hx : ¬ Blank p x := fun hx => hsolid (hblank.append hx)
          by_contra hne
          exact hbad ⟨hx, hblank, hne⟩
        · exact hadded hblank

theorem Alignment.anchored_snapshot {cut shown added x : List α}
    (h : Alignment.Holds p (.anchored cut shown added) m) :
    match (Alignment.anchored cut shown added).next p (.snapshot x) with
    | some a' => a'.Holds p (m.next p (.snapshot x))
    | none => ¬ (m.next p (.snapshot x)).Faithful p := by
  have hlevel := h.level
  have hf := h.faithful
  cases h with
  | @anchored _ _ _ core b b' hb hb' hcore hcut hshown hadded =>
      have htext : ¬ Blank p (b' ++ (core ++ (cut ++ added)) ++ x) := fun hblank =>
        hcore.not_blank (blank_append_iff.mp
          (blank_append_iff.mp (blank_append_iff.mp hblank).1).2).1
      have hstrip : strip p (b' ++ (core ++ (cut ++ added)) ++ x) =
          core ++ (cut ++ added ++ x).rdropWhile p := by
        rw [← strip_core_append hb' hcore]
        simp only [List.append_assoc]
      simp only [Alignment.next]
      by_cases hx : Blank p x
      · -- the core stays, and what stands behind it is anchored anew
        rw [if_pos hx]
        have hanchor := Merger.next_snapshot_blank hlevel hf htext hx
        by_cases hblank : Blank p added
        · rw [if_pos hblank]
          have hend : (b' ++ (core ++ (cut ++ added)) ++ x).rtakeWhile p = cut ++ added ++ x := by
            have hb'' := rtakeWhile_core_append hcore ((hcut.append hblank).append hx) b'
            rw [← hb'']
            simp only [List.append_assoc]
          have hend' : (b ++ (core ++ (shown ++ added))).rtakeWhile p = shown ++ added :=
            rtakeWhile_core_append hcore (hshown.append hblank) b
          simp only [hend, hend'] at hanchor
          exact hanchor
        · rw [if_neg hblank]
          have hend : (b' ++ (core ++ (cut ++ added)) ++ x).rtakeWhile p =
              added.rtakeWhile p ++ x := by
            rw [rtakeWhile_append_blank hx, ← List.append_assoc, ← List.append_assoc,
              rtakeWhile_append _ hblank]
          have hend' : (b ++ (core ++ (shown ++ added))).rtakeWhile p = added.rtakeWhile p := by
            rw [← List.append_assoc, ← List.append_assoc, rtakeWhile_append _ hblank]
          simp only [hend, hend'] at hanchor
          exact hanchor
      · rw [if_neg hx]
        have hsnap : strip p (b' ++ (core ++ (cut ++ added)) ++ x) =
            core ++ (cut ++ (added ++ x.rdropWhile p)) := by
          rw [hstrip, rdropWhile_append hx, List.append_assoc]
        have hxr : ¬ Blank p (x.rdropWhile p) := by
          intro hblank
          have := (hblank.rdropWhile)
          rw [List.rdropWhile_idempotent] at this
          exact hx (List.rdropWhile_eq_nil_iff.mp this)
        by_cases hblank : Blank p added
        · rw [if_pos hblank]
          by_cases hback : shown = [] ∧ added <+: cut ++ added
          · -- the snapshot extends what was shown
            rw [if_pos hback]
            obtain ⟨rfl, t, ht⟩ := hback
            refine Merger.next_snapshot_extends (v := t ++ x.rdropWhile p) hx ?_ hlevel ?_
            · show core ++ added ++ (t ++ x.rdropWhile p) = _
              rw [hsnap, ← List.append_assoc cut, ← ht]
              simp only [List.append_assoc]
            · show strip p (b ++ (core ++ ([] ++ added)) ++ (t ++ x.rdropWhile p)) = _
              rw [hsnap, ← List.append_assoc cut, ← ht]
              simp only [List.append_assoc, List.nil_append]
              rw [strip_core_append hb hcore, ← List.append_assoc, rdropWhile_append hxr,
                List.rdropWhile_idempotent, List.append_assoc]
          · rw [if_neg hback]
            by_cases hpre : added <+: cut ++ added
            · -- it extends what was shown, but for blanks that the snapshot does not have
              have hne : shown ≠ [] := fun h => hback ⟨h, hpre⟩
              obtain ⟨t, ht⟩ := hpre
              refine Merger.not_faithful_extends (v := t ++ x.rdropWhile p) hx ?_ ?_
              · show core ++ added ++ (t ++ x.rdropWhile p) = _
                rw [hsnap, ← List.append_assoc cut, ← ht]
                simp only [List.append_assoc]
              · show strip p (b ++ (core ++ (shown ++ added)) ++ (t ++ x.rdropWhile p)) ≠ _
                rw [hsnap, ← List.append_assoc cut, ← ht]
                simp only [List.append_assoc]
                rw [strip_core_append hb hcore, ← List.append_assoc added,
                  ← List.append_assoc shown, rdropWhile_append hxr, List.rdropWhile_idempotent]
                intro heq
                have hlen := congrArg List.length (List.append_cancel_left heq)
                have hpos := List.length_pos_iff.mpr hne
                simp only [List.length_append] at hlen
                omega
            · -- the text is shown from its beginning once more
              refine Merger.not_faithful_rewrite hx hlevel ?_
              show ¬ core ++ added <+: strip p (b' ++ (core ++ (cut ++ added)) ++ x)
              rw [hsnap, List.prefix_append_right_inj]
              intro h
              apply hpre
              rw [← List.append_assoc] at h
              refine List.prefix_of_prefix_length_le h (List.prefix_append _ _) ?_
              rw [List.length_append]
              omega
        · rw [if_neg hblank]
          by_cases hc : cut = []
          · rw [if_pos hc]
            obtain rfl : shown = cut := hadded hblank
            subst hc
            refine Merger.next_snapshot_extends (v := x.rdropWhile p) hx ?_ hlevel ?_
            · show core ++ added ++ x.rdropWhile p = _
              rw [hsnap, List.nil_append, List.append_assoc]
            · show strip p (b ++ (core ++ ([] ++ added)) ++ x.rdropWhile p) = _
              rw [hsnap]
              simp only [List.append_assoc, List.nil_append]
              rw [strip_core_append hb hcore, rdropWhile_append hxr, List.rdropWhile_idempotent]
          · rw [if_neg hc]
            refine Merger.not_faithful_rewrite hx hlevel ?_
            show ¬ core ++ added <+: strip p (b' ++ (core ++ (cut ++ added)) ++ x)
            rw [hsnap, List.prefix_append_right_inj]
            exact not_prefix_blank_append hblank hcut hc _

/-- One report: the merger goes on aligned, or shows the text wrongly. -/
theorem Alignment.Holds.next (h : a.Holds p m) (g : Growth α) :
    match a.next p g with
    | some a' => a'.Holds p (m.next p g)
    | none => ¬ (m.next p g).Faithful p := by
  cases a with
  | fresh seen =>
      cases h with
      | fresh htext =>
          cases g with
          | delta x => exact Alignment.fresh_delta htext
          | snapshot x => exact Alignment.fresh_snapshot htext
  | anchored cut shown added =>
      cases g with
      | delta x => exact Alignment.anchored_delta h
      | snapshot x => exact Alignment.anchored_snapshot h

/-- A merger has shown its text faithfully exactly as long as it is aligned. -/
theorem Alignment.Holds.faithful_iff (h : a.Holds p m) (gs : List (Growth α)) :
    (m.run p gs).Faithful p ↔ (a.run p gs).isSome = true := by
  induction gs generalizing a m with
  | nil => exact ⟨fun _ => rfl, fun _ => h.faithful⟩
  | cons g gs ih =>
      have hnext := h.next g
      cases hrun : a.next p g with
      | some a' =>
          simp only [hrun] at hnext
          simp only [Merger.run, Alignment.run, hrun, Option.bind_some]
          exact ih hnext
      | none =>
          simp only [hrun] at hnext
          obtain ⟨-, -, -, -, -, hlevel⟩ := Merger.next_grows h.level g
          simp only [Merger.run, Alignment.run, hrun, Option.bind_none]
          refine ⟨fun hf => absurd hf (Merger.not_faithful_run hlevel hnext gs), ?_⟩
          intro hcon
          cases hcon

/-- The text of a merger is what the reports have added. -/
theorem Merger.run_text (m : Merger α) (gs : List (Growth α)) :
    (m.run p gs).text = m.text ++ (gs.map Growth.added).flatten := by
  induction gs generalizing m with
  | nil => simp [Merger.run]
  | cons g gs ih =>
      have hstep : (m.next p g).text = m.text ++ g.added := by
        cases g with
        | delta x => rfl
        | snapshot x =>
            simp only [Merger.next, Growth.added]
            split_ifs <;> rfl
      rw [Merger.run, ih, hstep, List.map_cons, List.flatten_cons, List.append_assoc]

end OpencodeA2a.Stream
