import OpencodeA2a.Library.Leftovers

/-!
# Substitution up to a boundary

Symbols that carry more than the pattern looks at, and texts that go on behind a boundary: if
no match that ends before the boundary ends earlier with the longer text, what the substitution
makes of the text before it stays.
-/

namespace OpencodeA2a.Pattern

variable {α β : Type} {f : β → α} {r s : Regex α}

/-! ## §1  Symbols that carry more -/

def Regex.comap (f : β → α) : Regex α → Regex β
  | .symbol p => .symbol fun b => p (f b)
  | .seq r s => .seq (r.comap f) (s.comap f)
  | .alt r s => .alt (r.comap f) (s.comap f)
  | .star r => .star (r.comap f)
  | .notBehind p => .notBehind fun b => p (f b)
  | .notAhead p => .notAhead fun b => p (f b)

def Place.map (f : β → α) (pl : Place β) : Place α := ⟨pl.before.map f, pl.rest.map f⟩

theorem iterate_map {g : Place α → List (Place α)} {g' : Place β → List (Place β)}
    (hg : ∀ pl, g (pl.map f) = (g' pl).map (Place.map f)) (n : ℕ) (pl : Place β) :
    iterate g n (pl.map f) = (iterate g' n pl).map (Place.map f) := by
  induction n generalizing pl with
  | zero => rfl
  | succ n ih =>
      have hsame : (fun q : Place α => decide (q.rest.length < (pl.map f).rest.length)) ∘ Place.map f =
          fun q => decide (q.rest.length < pl.rest.length) := by
        funext q
        simp only [Function.comp_apply, Place.map, List.length_map]
      rw [iterate, iterate, hg pl, List.map_append, List.map_flatMap, List.filter_map,
        List.flatMap_map, hsame]
      congr 1
      exact List.flatMap_congr fun q _ => ih q

/-- The matches are those of the symbols that the pattern looks at. -/
theorem run_comap (f : β → α) (r : Regex α) (pl : Place β) :
    run r (pl.map f) = (run (r.comap f) pl).map (Place.map f) := by
  induction r generalizing pl with
  | symbol p =>
      obtain ⟨before, rest⟩ := pl
      cases rest with
      | nil => rfl
      | cons a l =>
          simp only [run, Regex.comap, Place.map, List.map_cons]
          split <;> rfl
  | seq r s ihr ihs =>
      simp only [run, Regex.comap]
      rw [ihr, List.flatMap_map, List.map_flatMap]
      exact List.flatMap_congr fun q _ => ihs q
  | alt r s ihr ihs =>
      simp only [run, Regex.comap]
      rw [ihr, ihs, List.map_append]
  | star r ihr =>
      simp only [run, Regex.comap]
      have hlength : (pl.map f).rest.length = pl.rest.length := List.length_map f
      rw [hlength]
      exact iterate_map ihr _ pl
  | notBehind p =>
      obtain ⟨before, rest⟩ := pl
      cases before with
      | none => rfl
      | some a =>
          show (if p (f a) then [] else [_]) = List.map _ (if p (f a) then [] else [_])
          split <;> rfl
  | notAhead p =>
      obtain ⟨before, rest⟩ := pl
      cases rest with
      | nil => rfl
      | cons a l =>
          show (if p (f a) then [] else [_]) = List.map _ (if p (f a) then [] else [_])
          split <;> rfl

theorem subFrom_comap (r : Regex α) (repl : List β) (n : ℕ) (pl : Place β) :
    (subFrom (r.comap f) repl n pl).map f = subFrom r (repl.map f) n (pl.map f) := by
  induction n generalizing pl with
  | zero => rfl
  | succ n ih =>
      obtain ⟨before, rest⟩ := pl
      cases rest with
      | nil => rfl
      | cons a l =>
          have hrun := run_comap f r ⟨before, a :: l⟩
          have hskip : (a :: subFrom (r.comap f) repl n ⟨some a, l⟩).map f =
              f a :: subFrom r (repl.map f) n ⟨some (f a), l.map f⟩ :=
            congrArg (f a :: ·) (ih ⟨some a, l⟩)
          show List.map f (subFrom (r.comap f) repl (n + 1) ⟨before, a :: l⟩) =
            subFrom r (repl.map f) (n + 1) ⟨before.map f, f a :: l.map f⟩
          rw [subFrom, subFrom]
          have hrun' : run r ⟨before.map f, f a :: l.map f⟩ = _ := hrun
          rw [hrun', List.head?_map]
          cases (run (r.comap f) ⟨before, a :: l⟩).head? with
          | none => exact hskip
          | some q =>
              simp only [Option.map_some, Place.map, List.length_map, List.length_cons]
              split
              · rw [List.map_append, ih q]
                rfl
              · exact hskip

/-- Substitution does not look at what else the symbols carry. -/
theorem sub_comap (r : Regex α) (repl text : List β) :
    (sub (r.comap f) repl text).map f = sub r (repl.map f) (text.map f) := by
  unfold sub
  rw [subFrom_comap, List.length_map]
  rfl

theorem avoids_comap {d : β} (h : Avoids (f d) r) : Avoids d (r.comap f) := by
  induction r with
  | symbol p => exact h
  | seq r s ihr ihs => exact ⟨ihr h.1, ihs h.2⟩
  | alt r s ihr ihs => exact ⟨ihr h.1, ihs h.2⟩
  | star r ihr => exact ihr h
  | notBehind p => exact h
  | notAhead p => exact h

theorem Needs.comap {P : α → Prop} (h : Needs P r) : Needs (fun b => P (f b)) (r.comap f) := by
  induction h with
  | symbol hp => exact .symbol fun b hb => hp (f b) hb
  | seqLeft _ ih => exact .seqLeft ih
  | seqRight _ ih => exact .seqRight ih
  | alt _ _ ihr ihs => exact .alt ihr ihs

/-! ## §2  Going on behind a boundary -/

variable {y : List α}

/-- With `y` behind the text there is a match exactly if there is one without; it ends at the
same place, or the one ends with the text and the other behind it. -/
def Continues (r : Regex α) (y : List α) (pl : Place α) : Prop :=
  run r pl = [] ∧ run r (pl.extend y) = [] ∨
    ∃ q q', (run r pl).head? = some q ∧ (run r (pl.extend y)).head? = some q' ∧
      (q' = q.extend y ∨ q.rest = [] ∧ q'.rest <:+ y)

/-- The longer text makes no difference at the place. -/
def CommutesAt (y : List α) (r : Regex α) (pl : Place α) : Prop :=
  run r (pl.extend y) = (run r pl).map (Place.extend y)

theorem CommutesAt.continues {pl : Place α} (h : CommutesAt y r pl) : Continues r y pl := by
  unfold Continues
  rw [show run r (pl.extend y) = _ from h, List.head?_map]
  cases hrun : run r pl with
  | nil => exact Or.inl ⟨rfl, rfl⟩
  | cons q qs => exact Or.inr ⟨q, _, rfl, rfl, Or.inl rfl⟩

theorem CommutesAt.seq {pl : Place α} (hr : CommutesAt y r pl)
    (hs : ∀ q ∈ run r pl, CommutesAt y s q) : CommutesAt y (.seq r s) pl := by
  unfold CommutesAt at *
  simp only [run]
  rw [hr, List.flatMap_map, List.map_flatMap]
  exact List.flatMap_congr hs

theorem CommutesAt.alt {pl : Place α} (hr : CommutesAt y r pl) (hs : CommutesAt y s pl) :
    CommutesAt y (.alt r s) pl := by
  unfold CommutesAt at *
  simp only [run]
  rw [hr, hs, List.map_append]

/-- A symbol is read before the end of the text. -/
theorem commutesAt_symbol {pl : Place α} (h : pl.rest ≠ []) (p : α → Bool) :
    CommutesAt y (.symbol p) pl := by
  obtain ⟨before, rest⟩ := pl
  obtain ⟨a, l, rfl⟩ := List.exists_cons_of_ne_nil h
  show (if p a then [_] else []) = List.map _ (if p a then [_] else [])
  split <;> rfl

/-- A pattern behind one that leads to one place at most. -/
theorem Continues.seq {pl : Place α} (hr : CommutesAt y r pl)
    (hs : run r pl = [] ∨ ∃ q, run r pl = [q] ∧ Continues s y q) : Continues (.seq r s) y pl := by
  unfold Continues
  simp only [run]
  rw [show run r (pl.extend y) = _ from hr]
  rcases hs with hnil | ⟨q, hone, hq⟩
  · rw [hnil]
    exact Or.inl ⟨rfl, rfl⟩
  · rw [hone]
    simp only [List.map_cons, List.map_nil, List.flatMap_cons, List.flatMap_nil, List.append_nil]
    exact hq

/-- A repetition goes on with the same matches until one ends with the text. -/
theorem Continues.star (hcons : Consuming r)
    (hr : ∀ pl : Place α, pl.rest ≠ [] → CommutesAt y r pl) (pl : Place α) :
    Continues (.star r) y pl := by
  induction hlen : pl.rest.length using Nat.strongRecOn generalizing pl with
  | _ n ih =>
      right
      by_cases hrest : pl.rest = []
      · have hnone : run r pl = [] := by
          rw [List.eq_nil_iff_forall_not_mem]
          intro q hq
          have hlt := hcons.length_lt hq
          rw [hrest] at hlt
          cases hlt
        cases hhead : (run (.star r) (pl.extend y)).head? with
        | none => exact absurd (List.head?_eq_none_iff.mp hhead) (run_star_ne_nil r _)
        | some q' =>
            refine ⟨pl, q', head?_run_star_nil hnone, rfl, Or.inr ⟨hrest, ?_⟩⟩
            obtain ⟨m, hm, -⟩ := matches_of_run _ (List.mem_of_head? hhead)
            refine ⟨m, ?_⟩
            rw [← hm]
            show pl.rest ++ y = y
            rw [hrest, List.nil_append]
      · have hcommutes : run r (pl.extend y) = _ := hr pl hrest
        cases hrun : run r pl with
        | nil =>
            rw [hrun] at hcommutes
            exact ⟨pl, pl.extend y, head?_run_star_nil hrun, head?_run_star_nil hcommutes,
              Or.inl rfl⟩
        | cons q qs =>
            have hhead : (run r pl).head? = some q := by rw [hrun]; rfl
            have hhead' : (run r (pl.extend y)).head? = some (q.extend y) := by
              rw [hcommutes, hrun]
              rfl
            have hlt := hcons.length_lt (List.mem_of_head? hhead)
            have hlt' := hcons.length_lt (List.mem_of_head? hhead')
            rw [head?_run_star_cons hhead hlt, head?_run_star_cons hhead' hlt']
            rcases ih _ (hlen ▸ hlt) q rfl with ⟨hnil, -⟩ | hmore
            · exact absurd hnil (run_star_ne_nil r q)
            · exact hmore

theorem Continues.seq_star {pl : Place α} (hr : CommutesAt y r pl)
    (hs : ∀ q, Continues (.star s) y q) : Continues (.seq r (.star s)) y pl := by
  have hr' : run r (pl.extend y) = _ := hr
  unfold Continues
  cases hrun : run r pl with
  | nil =>
      rw [hrun] at hr'
      exact Or.inl ⟨run_seq_eq_nil hrun, run_seq_eq_nil hr'⟩
  | cons q qs =>
      right
      have hhead : ∀ (pl : Place α) (q : Place α) (qs : List (Place α)), run r pl = q :: qs →
          (run (.seq r (.star s)) pl).head? = (run (.star s) q).head? := by
        intro pl q qs h
        show ((run r pl).flatMap (run (.star s))).head? = _
        rw [h, List.flatMap_cons, List.head?_append_of_ne_nil _ (run_star_ne_nil s q)]
      rw [hrun] at hr'
      rw [hhead pl q qs hrun, hhead (pl.extend y) _ _ hr']
      rcases hs q with ⟨hnil, -⟩ | hmore
      · exact absurd hnil (run_star_ne_nil s q)
      · exact hmore

theorem Stops.continues {d : α} (h : Stops d r) (y : List α) (pl : Place α) :
    Continues r (d :: y) pl :=
  CommutesAt.continues (h.commutes_extend y pl)

/-- What is made of the text stays, and then comes what is made of `y`; or a match leads across
the boundary, and a replacement stands there. -/
theorem subFrom_extend (hr : Consuming r) (repl : List α) {n : ℕ} {pl : Place α}
    (hn : pl.rest.length ≤ n)
    (h : ∀ a b, pl.rest = a ++ b → b ≠ [] → Continues r y ⟨pl.lastOf a, b⟩) :
    subFrom r repl (n + y.length) (pl.extend y) =
        subFrom r repl n pl ++ subFrom r repl y.length ⟨pl.lastOf pl.rest, y⟩ ∨
      ∃ left q, subFrom r repl n pl = left ++ repl ∧ q.rest <:+ y ∧
        subFrom r repl (n + y.length) (pl.extend y) =
          left ++ repl ++ subFrom r repl y.length q := by
  have hscan := scan_cases hr (Q := fun n pl =>
    pl.rest.length ≤ n → (∀ a b, pl.rest = a ++ b → b ≠ [] → Continues r y ⟨pl.lastOf a, b⟩) →
      (subFrom r repl (n + y.length) (pl.extend y) =
          subFrom r repl n pl ++ subFrom r repl y.length ⟨pl.lastOf pl.rest, y⟩ ∨
        ∃ left q, subFrom r repl n pl = left ++ repl ∧ q.rest <:+ y ∧
          subFrom r repl (n + y.length) (pl.extend y) =
            left ++ repl ++ subFrom r repl y.length q)) ?_ ?_ ?_ hn
  · exact hscan hn h
  · intro n before _ _
    left
    rw [subFrom_nil r repl n rfl]
    exact subFrom_fuel repl (Nat.le_add_left _ _) (Nat.le_refl _)
  · intro n before a l hnil ih hlen hcontinues
    have hfirst := hcontinues [] (a :: l) rfl (List.cons_ne_nil a l)
    have hnil' : run r ⟨before, a :: (l ++ y)⟩ = [] := by
      rcases hfirst with ⟨-, hnil'⟩ | ⟨q, q', hq, -, -⟩
      · exact hnil'
      · rw [show run r ⟨Place.lastOf ⟨before, a :: l⟩ [], a :: l⟩ = [] from hnil] at hq
        cases hq
    have hmore := ih (Nat.le_of_succ_le_succ hlen) fun a' b hab hb => by
      rw [← lastOf_cons before]
      exact hcontinues (a :: a') b (congrArg (a :: ·) hab) hb
    have hskip : subFrom r repl (n + 1 + y.length) (Place.extend y ⟨before, a :: l⟩) =
        a :: subFrom r repl (n + y.length) (Place.extend y ⟨some a, l⟩) := by
      rw [Nat.add_right_comm]
      exact subFrom_skip repl _ hnil'
    rw [hskip, subFrom_skip repl n hnil, lastOf_cons]
    rcases hmore with hmore | ⟨left, q, hleft, hq, hmore⟩
    · exact Or.inl (congrArg (a :: ·) hmore)
    · exact Or.inr ⟨a :: left, q, congrArg (a :: ·) hleft, hq, congrArg (a :: ·) hmore⟩
  · intro n pl q hq ih hlen hcontinues
    obtain ⟨m, hm, hmatch⟩ := behind_of_run r (List.mem_of_head? hq)
    have hlt := hr.length_lt (List.mem_of_head? hq)
    have hfirst := hcontinues [] pl.rest rfl (List.ne_nil_of_length_pos (by omega))
    obtain ⟨q', hq', hend⟩ : ∃ q', (run r (pl.extend y)).head? = some q' ∧
        (q' = q.extend y ∨ q.rest = [] ∧ q'.rest <:+ y) := by
      rcases hfirst with ⟨hnil, -⟩ | ⟨q₁, q', hq₁, hq', hend⟩
      · rw [show run r pl = [] from hnil] at hq
        cases hq
      · rw [show (run r pl).head? = some q₁ from hq₁] at hq
        cases hq
        exact ⟨q', hq', hend⟩
    have hmatch' : subFrom r repl (n + 1 + y.length) (pl.extend y) =
        repl ++ subFrom r repl (n + y.length) q' := by
      rw [Nat.add_right_comm]
      exact subFrom_match hr repl _ hq'
    rw [hmatch', subFrom_match hr repl n hq]
    rcases hend with rfl | ⟨hrest, hsuffix⟩
    · have hmore := ih (by omega) fun a b hab hb => by
        rw [← hm.lastOf_append]
        exact hcontinues (m ++ a) b (by rw [hm.1, hab, List.append_assoc]) hb
      rw [show pl.lastOf pl.rest = q.lastOf q.rest by rw [hm.1, hm.lastOf_append]]
      rcases hmore with hmore | ⟨left, q', hleft, hq', hmore⟩
      · left
        rw [hmore, List.append_assoc]
      · right
        refine ⟨repl ++ left, q', ?_, hq', ?_⟩
        · rw [hleft, List.append_assoc]
        · rw [hmore]
          simp only [List.append_assoc]
    · right
      refine ⟨[], q', ?_, hsuffix, ?_⟩
      · rw [subFrom_nil r repl n hrest]
        rw [List.append_nil, List.nil_append]
      · rw [List.nil_append]
        congr 1
        have hle := hsuffix.length_le
        exact subFrom_fuel repl (by omega) hle

theorem sub_extend (hr : Consuming r) (repl : List α) {text : List α}
    (h : ∀ a b, text = a ++ b → b ≠ [] → Continues r y ⟨a.getLast?, b⟩) :
    sub r repl (text ++ y) =
        sub r repl text ++ subFrom r repl y.length ⟨text.getLast?, y⟩ ∨
      ∃ left q, sub r repl text = left ++ repl ∧ q.rest <:+ y ∧
        sub r repl (text ++ y) = left ++ repl ++ subFrom r repl y.length q := by
  have hlast : ∀ a : List α, Place.lastOf ⟨none, text⟩ a = a.getLast? := fun a => Option.or_none
  have hlength : (Place.mk none text).rest.length ≤ text.length := Nat.le_refl _
  have hextend := subFrom_extend hr repl hlength fun a b hab hb => by
    rw [hlast]
    exact h a b hab hb
  rw [hlast] at hextend
  unfold sub
  rw [List.length_append]
  exact hextend

/-- Only symbols of the text and of the replacement are there afterwards. -/
theorem mem_subFrom {repl : List α} {n : ℕ} {pl : Place α} {a : α}
    (h : a ∈ subFrom r repl n pl) : a ∈ pl.rest ∨ a ∈ repl := by
  induction n generalizing pl with
  | zero => exact Or.inl h
  | succ n ih =>
      obtain ⟨before, rest⟩ := pl
      cases rest with
      | nil => cases h
      | cons a' l =>
          have hskip : a ∈ a' :: subFrom r repl n ⟨some a', l⟩ → a ∈ a' :: l ∨ a ∈ repl := by
            intro h
            rcases List.mem_cons.mp h with rfl | h
            · exact Or.inl List.mem_cons_self
            · exact (ih h).imp (List.mem_cons_of_mem a') id
          rw [subFrom] at h
          cases hq : (run r ⟨before, a' :: l⟩).head? with
          | none =>
              simp only [hq] at h
              exact hskip h
          | some q =>
              simp only [hq] at h
              split at h
              · rcases List.mem_append.mp h with h | h
                · exact Or.inr h
                · obtain ⟨m, hm, -⟩ := matches_of_run r (List.mem_of_head? hq)
                  refine (ih h).imp (fun hmem => ?_) id
                  rw [show a' :: l = m ++ q.rest from hm]
                  exact List.mem_append_right m hmem
              · exact hskip h

/-- The text ends as before, or with a replacement. -/
theorem getLast?_sub (hr : Consuming r) {repl : List α} (hrepl : repl ≠ []) {text : List α} {a : α}
    (h : a ∈ (sub r repl text).getLast?) : a ∈ text.getLast? ∨ a ∈ repl := by
  refine scan_cases hr (Q := fun n pl => a ∈ (subFrom r repl n pl).getLast? →
    a ∈ pl.rest.getLast? ∨ a ∈ repl) ?_ ?_ ?_ (show (Place.mk none text).rest.length ≤ text.length
      from Nat.le_refl _) h
  · intro n before hmem
    rw [subFrom_nil r repl n rfl] at hmem
    cases hmem
  · intro n before a' l hnil ih hmem
    rw [subFrom_skip repl n hnil] at hmem
    cases hlast : (subFrom r repl n ⟨some a', l⟩).getLast? with
    | none =>
        have hl : l = [] := rest_of_subFrom_nil hrepl n (List.getLast?_eq_none_iff.mp hlast)
        subst hl
        rw [List.getLast?_cons, hlast] at hmem
        exact Or.inl hmem
    | some a'' =>
        rw [List.getLast?_cons, hlast] at hmem
        rcases ih (hlast ▸ hmem) with hl | hrepl
        · left
          rw [List.getLast?_cons, Option.mem_def.mp hl]
          rfl
        · exact Or.inr hrepl
  · intro n pl q hq ih hmem
    rw [subFrom_match hr repl n hq, List.getLast?_append] at hmem
    cases hlast : (subFrom r repl n q).getLast? with
    | none =>
        rw [hlast] at hmem
        exact Or.inr (List.mem_of_getLast? hmem)
    | some a'' =>
        rw [hlast] at hmem
        rcases ih (hlast ▸ hmem) with hrest | hrepl
        · obtain ⟨m, hm, -⟩ := matches_of_run r (List.mem_of_head? hq)
          left
          rw [hm, List.getLast?_append, Option.mem_def.mp hrest]
          rfl
        · exact Or.inr hrepl

end OpencodeA2a.Pattern
