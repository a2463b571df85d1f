import OpencodeA2a.Library.Timed
import OpencodeA2a.Store.SessionState
import Mathlib.Data.List.Sublists
import Mathlib.Data.Int.Order.Basic

/-!
# What the TTL cache keeps

Every run of `_TTLCache` under a clock that does not go back: an entry is found until it is
popped, evicted or expired, the cache holds at most `maxsize` entries, and an overflow takes
what has expired before what expires soonest.
-/

namespace OpencodeA2a.Store

/-! ## §1  The last item of a stable sort -/

section Sorting

variable {α : Type}

/-- Two elements of a list without duplicates stand in one order. -/
theorem not_sublist_swap {l : List α} (hl : l.Nodup) {a b : α} (h : [a, b].Sublist l) :
    ¬ [b, a].Sublist l := by
  induction l with
  | nil => cases h
  | cons c l ih =>
      rw [List.nodup_cons] at hl
      intro h'
      rw [List.cons_sublist_cons'] at h h'
      rcases h with h | ⟨rfl, h⟩
      · rcases h' with h' | ⟨rfl, h'⟩
        · exact ih hl.2 h h'
        · exact hl.1 (h.subset (List.mem_cons_of_mem _ (List.mem_singleton_self _)))
      · rcases h' with h' | ⟨rfl, h'⟩
        · exact hl.1 (h'.subset (List.mem_cons_of_mem _ (List.mem_singleton_self _)))
        · exact hl.1 (List.singleton_sublist.mp h')

/-- What was last, and is not below anything, is last in the sorted list. -/
theorem not_mem_take_mergeSort {le : α → α → Bool} (htrans : ∀ a b c, le a b → le b c → le a c)
    (htotal : ∀ a b, le a b || le b a) {xs : List α} {x : α} (hn : (xs ++ [x]).Nodup)
    (hle : ∀ y ∈ xs, le y x) {n : ℕ} (h : n ≤ xs.length) :
    x ∉ ((xs ++ [x]).mergeSort le).take n := by
  intro hx
  have hperm := List.mergeSort_perm (xs ++ [x]) le
  have hsorted := hperm.nodup_iff.mpr hn
  have hlength := hperm.length_eq
  rw [List.length_append, List.length_singleton] at hlength
  have hmore : ((xs ++ [x]).mergeSort le).drop n ≠ [] := by
    intro hnil
    have := List.drop_eq_nil_iff.mp hnil
    omega
  obtain ⟨z, hz⟩ := List.exists_mem_of_ne_nil _ hmore
  have hxz : [x, z].Sublist ((xs ++ [x]).mergeSort le) := by
    have happend := (List.singleton_sublist.mpr hx).append (List.singleton_sublist.mpr hz)
    rwa [List.take_append_drop] at happend
  have hne : z ≠ x := by
    rintro rfl
    rw [← List.take_append_drop n ((xs ++ [z]).mergeSort le), List.nodup_append] at hsorted
    exact hsorted.2.2 z hx z hz rfl
  have hmem : z ∈ xs := by
    have := hperm.subset (List.mem_of_mem_drop hz)
    rcases List.mem_append.mp this with hz | hz
    · exact hz
    · exact absurd (List.mem_singleton.mp hz) hne
  have hzx : [z, x].Sublist (xs ++ [x]) :=
    (List.singleton_sublist.mpr hmem).append (List.Sublist.refl _)
  exact not_sublist_swap hsorted hxz (List.pair_sublist_mergeSort htrans htotal (hle z hmem) hzx)

end Sorting

namespace TtlCache

variable {κ ν : Type} [DecidableEq κ] {c : TtlCache κ ν} {now t : ℤ} {key : κ} {value : ν}

/-! ## §2  Histories -/

inductive Op (κ ν : Type) where
  | get (key : κ)
  | set (key : κ) (value : ν)
  | pop (key : κ)

def empty (κ ν : Type) (ttlSeconds maxsize : ℤ) (refreshOnGet : Bool) : TtlCache κ ν :=
  ⟨ttlSeconds, maxsize, refreshOnGet, .empty⟩

def perform (c : TtlCache κ ν) (now : ℤ) : Op κ ν → TtlCache κ ν
  | .get key => (c.get now key).1
  | .set key value => c.set now key value
  | .pop key => c.pop key

/-- After operations, each at its time. -/
def after (c : TtlCache κ ν) (ops : List (ℤ × Op κ ν)) : TtlCache κ ν :=
  ops.foldl (fun c op => c.perform op.1 op.2) c

/-- Setting `key` takes the entry of `k` out of the cache. -/
def evicts (c : TtlCache κ ν) (now : ℤ) (key : κ) (value : ν) (k : κ) : Bool :=
  decide (k ≠ key) && (c.store.get? k).isSome && ((c.set now key value).store.get? k).isNone

/-- The value of the latest set of `k`, and when it expires: where no pop and no eviction
followed, with what the operation makes of it. -/
def trace (k : κ) (c : TtlCache κ ν) (now : ℤ) (entry : Option (ν × ℤ)) :
    Op κ ν → Option (ν × ℤ)
  | .get key =>
      if key = k ∧ c.refreshOnGet then
        entry.map fun e => if now < e.2 then (e.1, now + c.ttlSeconds) else e
      else entry
  | .set key value =>
      if key = k then some (value, now + c.ttlSeconds)
      else if c.evicts now key value k then none else entry
  | .pop key => if key = k then none else entry

def latest (k : κ) : TtlCache κ ν → Option (ν × ℤ) → List (ℤ × Op κ ν) → Option (ν × ℤ)
  | _, entry, [] => entry
  | c, entry, (now, op) :: ops => latest k (c.perform now op) (c.trace k now entry op) ops

/-! ## §3  A set that overflows -/

/-- What the cache holds with the entry just set, before anything is evicted. -/
def stored (c : TtlCache κ ν) (now : ℤ) (key : κ) (value : ν) : Dict κ (ν × ℤ) :=
  c.store.set key (value, now + c.ttlSeconds)

def unexpired (now : ℤ) (items : List (κ × (ν × ℤ))) : List (κ × (ν × ℤ)) :=
  items.filter fun item => now < item.2.2

/-- What `set` leaves of the entries `items`: all of them, as long as they fit; else what has
not expired, without those of it that expire first, as many as do not fit either. -/
structure Fitted (maxsize now : ℤ) (items kept : List (κ × (ν × ℤ))) : Prop where
  fits : (items.length : ℤ) ≤ maxsize → kept = items
  overflows : maxsize < items.length → ∃ removed, (unexpired now items).Perm (kept ++ removed) ∧
    (removed.length : ℤ) = max 0 ((unexpired now items).length - maxsize) ∧
    ∀ r ∈ removed, ∀ item ∈ kept, r.2.2 ≤ item.2.2

/-- The entries that expire first, as many as do not fit. -/
def soonest (maxsize : ℤ) (items : List (κ × (ν × ℤ))) : List (κ × (ν × ℤ)) :=
  (items.mergeSort fun a b => a.2.2 ≤ b.2.2).take ((items.length : ℤ) - maxsize).toNat

theorem items_unexpired (d : Dict κ (ν × ℤ)) :
    (d.popAll ((d.items.filter fun item => item.2.2 ≤ now).map Prod.fst)).items =
      unexpired now d.items := by
  rw [Dict.items_popAll]
  refine List.filter_congr fun item hitem => ?_
  rw [decide_eq_decide, Dict.items_popAll_map (List.filter_subset_self _) item hitem]
  simp [hitem]

theorem items_evictIfNeeded (c : TtlCache κ ν) (now : ℤ) :
    (c.evictIfNeeded now).store.items =
      if (c.store.items.length : ℤ) ≤ c.maxsize then c.store.items
      else (unexpired now c.store.items).filter fun item =>
        item.1 ∉ (soonest c.maxsize (unexpired now c.store.items)).map Prod.fst := by
  unfold evictIfNeeded
  split
  · rfl
  · simp only
    rw [items_unexpired]
    split
    · rename_i hfits
      have hnone : soonest c.maxsize (unexpired now c.store.items) = [] := by
        unfold soonest
        rw [show ((unexpired now c.store.items).length - c.maxsize : ℤ).toNat = 0 by omega]
        rfl
      rw [hnone, items_unexpired]
      simp
    · show (Dict.popAll _ _).items = _
      rw [Dict.items_popAll, items_unexpired]
      rfl

/-- A cache with room, whose entries expire in time. -/
structure Ready (c : TtlCache κ ν) (now : ℤ) : Prop where
  ttl : 0 < c.ttlSeconds
  room : 0 < c.maxsize
  fits : (c.store.items.length : ℤ) ≤ c.maxsize
  soon : ∀ item ∈ c.store.items, item.2.2 ≤ now + c.ttlSeconds

omit [DecidableEq κ] in
theorem Ready.enabled (h : c.Ready now) : ¬ c.disabled := by
  have httl := h.ttl
  have hroom := h.room
  unfold disabled
  omega

omit [DecidableEq κ] in
theorem Ready.later (h : c.Ready now) (ht : now ≤ t) : c.Ready t := by
  refine ⟨h.ttl, h.room, h.fits, ?_⟩
  intro item hitem
  have := h.soon item hitem
  omega

theorem Ready.items_set (h : c.Ready now) :
    (c.set now key value).store.items =
      if ((c.stored now key value).items.length : ℤ) ≤ c.maxsize then
        (c.stored now key value).items
      else (unexpired now (c.stored now key value).items).filter fun item =>
        item.1 ∉ (soonest c.maxsize (unexpired now (c.stored now key value).items)).map Prod.fst := by
  unfold set
  rw [if_neg h.enabled]
  exact items_evictIfNeeded _ now

/-- What has to go, beside what stays. -/
theorem perm_soonest (d : Dict κ (ν × ℤ)) (maxsize : ℤ) {items : List (κ × (ν × ℤ))}
    (hitems : items.Sublist d.items) :
    items.Perm ((items.filter fun item => item.1 ∉ (soonest maxsize items).map Prod.fst) ++
      soonest maxsize items) := by
  have hsub : soonest maxsize items ⊆ items := fun x hx =>
    (List.mergeSort_perm items _).subset (List.mem_of_mem_take hx)
  have hnodup : items.Nodup := d.nodup_items.sublist hitems
  have hkey := Dict.items_popAll_map (fun x hx => hitems.subset (hsub hx) :
    soonest maxsize items ⊆ d.items)
  have hfilter : (items.filter fun item => item.1 ∉ (soonest maxsize items).map Prod.fst).Nodup :=
    hnodup.sublist List.filter_sublist
  have hsoonest : (soonest maxsize items).Nodup :=
    ((List.mergeSort_perm items _).nodup_iff.mpr hnodup).sublist (List.take_sublist _ _)
  rw [List.perm_ext_iff_of_nodup hnodup]
  · intro x
    rw [List.mem_append, List.mem_filter]
    constructor
    · intro hx
      by_cases hmem : x ∈ soonest maxsize items
      · exact Or.inr hmem
      · refine Or.inl ⟨hx, ?_⟩
        rw [decide_eq_true_eq, hkey x (hitems.subset hx)]
        exact hmem
    · rintro (⟨hx, -⟩ | hx)
      · exact hx
      · exact hsub hx
  · rw [List.nodup_append]
    refine ⟨hfilter, hsoonest, ?_⟩
    rintro x hx y hy rfl
    obtain ⟨hx, hnot⟩ := List.mem_filter.mp hx
    rw [decide_eq_true_eq, hkey x (hitems.subset hx)] at hnot
    exact hnot hy

omit [DecidableEq κ] in
theorem soonest_le (maxsize : ℤ) {items : List (κ × (ν × ℤ))} {r item : κ × (ν × ℤ)}
    (hr : r ∈ soonest maxsize items) (hitem : item ∈ items) (hnot : item ∉ soonest maxsize items) :
    r.2.2 ≤ item.2.2 := by
  have hsorted : (List.mergeSort items fun a b => a.2.2 ≤ b.2.2).Pairwise
      fun a b => decide (a.2.2 ≤ b.2.2) = true := List.pairwise_mergeSort
    (fun a b c hab hbc => by simp only [decide_eq_true_eq] at *; omega)
    (fun a b => by simp only [Bool.or_eq_true, decide_eq_true_eq]; omega) items
  have hmem := (List.mergeSort_perm items fun a b => a.2.2 ≤ b.2.2).mem_iff.mpr hitem
  rw [← List.take_append_drop ((items.length : ℤ) - maxsize).toNat (List.mergeSort _ _)] at hsorted hmem
  rcases List.mem_append.mp hmem with hmem | hmem
  · exact absurd hmem hnot
  · have := (List.pairwise_append.mp hsorted).2.2 r hr item hmem
    simpa using this

/-- A set does with an overflow what it should. -/
theorem Ready.fitted (h : c.Ready now) (key : κ) (value : ν) :
    Fitted c.maxsize now (c.stored now key value).items (c.set now key value).store.items := by
  have hroom := h.room
  constructor
  · intro hfits
    rw [h.items_set, if_pos hfits]
  · intro hover
    have hsub : (unexpired now (c.stored now key value).items).Sublist
        (c.stored now key value).items := List.filter_sublist
    rw [h.items_set, if_neg (not_le.mpr hover)]
    refine ⟨_, perm_soonest _ c.maxsize hsub, ?_, ?_⟩
    · unfold soonest
      rw [List.length_take, List.length_mergeSort]
      omega
    · intro r hr item hitem
      obtain ⟨hmem, hnot⟩ := List.mem_filter.mp hitem
      apply soonest_le c.maxsize hr hmem
      intro hsoon
      rw [decide_eq_true_eq] at hnot
      exact hnot (List.mem_map_of_mem hsoon)

theorem Ready.length_set (h : c.Ready now) :
    ((c.set now key value).store.items.length : ℤ) ≤ c.maxsize := by
  have hroom := h.room
  have hfitted := h.fitted key value
  rcases le_or_gt ((c.stored now key value).items.length : ℤ) c.maxsize with hfits | hover
  · rwa [hfitted.fits hfits]
  · obtain ⟨removed, hperm, hlength, -⟩ := hfitted.overflows hover
    have hcount := hperm.length_eq
    rw [List.length_append] at hcount
    omega

theorem Ready.sublist_set (h : c.Ready now) :
    (c.set now key value).store.items.Sublist (c.stored now key value).items := by
  rw [h.items_set]
  split
  · exact List.Sublist.refl _
  · exact List.filter_sublist.trans List.filter_sublist

/-- The entry that was just set is never evicted. -/
theorem Ready.get?_set_self (h : c.Ready now) :
    (c.set now key value).store.get? key = some (value, now + c.ttlSeconds) := by
  have httl := h.ttl
  have hroom := h.room
  have hcount := h.fits
  rw [Dict.get?_eq_some, h.items_set]
  have hself : (key, (value, now + c.ttlSeconds)) ∈ (c.stored now key value).items :=
    Dict.get?_eq_some.mp (Dict.get?_set_self ..)
  split
  · exact hself
  · rename_i hover
    cases hget : c.store.get? key with
    | some item =>
        have hlength := Dict.length_set_of_some hget (value, now + c.ttlSeconds)
        unfold stored at hover
        omega
    | none =>
        have hitems : (c.stored now key value).items =
            c.store.items ++ [(key, (value, now + c.ttlSeconds))] :=
          Dict.items_set_of_none hget _
        -- it comes last, and nothing expires later
        have hunexpired : unexpired now (c.stored now key value).items =
            unexpired now c.store.items ++ [(key, (value, now + c.ttlSeconds))] := by
          have hlive : now < now + c.ttlSeconds := Int.lt_add_of_pos_right now httl
          unfold unexpired
          rw [hitems, List.filter_append]
          simp [hlive]
        have hlast : (key, (value, now + c.ttlSeconds)) ∉
            soonest c.maxsize (unexpired now (c.stored now key value).items) := by
          rw [hunexpired]
          apply not_mem_take_mergeSort
          · intro a b c hab hbc
            simp only [decide_eq_true_eq] at *
            omega
          · intro a b
            simp only [Bool.or_eq_true, decide_eq_true_eq]
            omega
          · rw [← hunexpired]
            exact (Dict.nodup_items _).sublist List.filter_sublist
          · intro item hitem
            rw [decide_eq_true_eq]
            exact h.soon item (List.mem_filter.mp hitem).1
          · rw [List.length_append, List.length_singleton]
            omega
        refine List.mem_filter.mpr ⟨?_, ?_⟩
        · rw [hunexpired]
          exact List.mem_append_right _ (List.mem_singleton_self _)
        · have hsub : soonest c.maxsize (unexpired now (c.stored now key value).items) ⊆
              (c.stored now key value).items := fun x hx =>
            (List.mem_filter.mp ((List.mergeSort_perm _ _).subset (List.mem_of_mem_take hx))).1
          rw [decide_eq_true_eq, Dict.items_popAll_map hsub _ hself]
          exact hlast

theorem Ready.get?_set_of_ne (h : c.Ready now) {k : κ} (hk : k ≠ key) :
    (c.set now key value).store.get? k =
      if c.evicts now key value k then none else c.store.get? k := by
  cases hafter : (c.set now key value).store.get? k with
  | some item =>
      have hstored := Dict.get?_eq_some.mpr (h.sublist_set.subset (Dict.get?_eq_some.mp hafter))
      unfold stored at hstored
      rw [Dict.get?_set_of_ne _ hk] at hstored
      simp [evicts, hafter, hstored]
  | none =>
      cases hbefore : c.store.get? k with
      | none => simp
      | some item => simp [evicts, hk, hbefore, hafter]

/-! ## §4  Runs -/

/-- What has not expired. -/
def alive (now : ℤ) (entry : Option (ν × ℤ)) : Option (ν × ℤ) := entry.filter fun e => now < e.2

theorem alive_later (h : now ≤ t) (entry : Option (ν × ℤ)) :
    alive t entry = alive t (alive now entry) := by
  cases entry with
  | none => rfl
  | some e =>
      unfold alive
      by_cases he : now < e.2
      · simp [Option.filter, he]
      · have hlate : ¬ t < e.2 := by omega
        simp [Option.filter, he, hlate]

theorem alive_some {e : ν × ℤ} (h : now < e.2) : alive now (some e) = some e := by
  simp [alive, Option.filter, h]

theorem alive_expired {e : ν × ℤ} (h : e.2 ≤ now) : alive now (some e) = none := by
  simp [alive, Option.filter, h]

/-- What the cache has of a key, as far as it counts, is what the history says. -/
def Follows (c : TtlCache κ ν) (now : ℤ) (entries : κ → Option (ν × ℤ)) : Prop :=
  ∀ k, alive now (c.store.get? k) = alive now (entries k)

variable {entries : κ → Option (ν × ℤ)}

theorem Ready.get_value (hc : c.Ready now) :
    (c.get now key).2 = (alive now (c.store.get? key)).map Prod.fst := by
  unfold TtlCache.get
  rw [if_neg hc.enabled]
  cases c.store.get? key with
  | none => rfl
  | some item =>
      by_cases he : item.2 ≤ now
      · simp only [if_pos he, alive_expired he]
        rfl
      · simp only [if_neg he, alive_some (not_le.mp he)]
        split <;> rfl

/-- A get refreshes the entry, or drops it as expired. -/
theorem Ready.alive_get (hc : c.Ready now) (k : κ) :
    alive now ((c.get now key).1.store.get? k) =
      if key = k ∧ c.refreshOnGet then
        (alive now (c.store.get? k)).map fun e => (e.1, now + c.ttlSeconds)
      else alive now (c.store.get? k) := by
  have httl := hc.ttl
  unfold TtlCache.get
  rw [if_neg hc.enabled]
  cases hget : c.store.get? key with
  | none =>
      show alive now (c.store.get? k) = _
      split
      · rename_i hk
        obtain ⟨rfl, -⟩ := hk
        rw [hget]
        rfl
      · rfl
  | some item =>
      by_cases he : item.2 ≤ now
      · simp only [if_pos he]
        rw [Dict.get?_pop]
        by_cases hk : k = key
        · subst hk
          rw [if_pos rfl, hget, alive_expired he]
          split <;> rfl
        · rw [if_neg hk, if_neg (fun hcon => hk hcon.1.symm)]
      · simp only [if_neg he]
        split
        · rename_i hrefresh
          rw [Dict.get?_set]
          by_cases hk : k = key
          · subst hk
            rw [if_pos rfl, if_pos ⟨rfl, hrefresh⟩, hget, alive_some (not_le.mp he),
              alive_some (Int.lt_add_of_pos_right now httl)]
            rfl
          · rw [if_neg hk, if_neg (fun hcon => hk hcon.1.symm)]
        · rename_i hrefresh
          rw [if_neg (fun hcon => hrefresh hcon.2)]

theorem alive_trace_get (httl : 0 < c.ttlSeconds) (k : κ) (entry : Option (ν × ℤ)) :
    alive now (c.trace k now entry (.get key)) =
      if key = k ∧ c.refreshOnGet then (alive now entry).map fun e => (e.1, now + c.ttlSeconds)
      else alive now entry := by
  simp only [trace]
  split
  · cases entry with
    | none => rfl
    | some e =>
        by_cases he : now < e.2
        · rw [Option.map_some, if_pos he, alive_some he, alive_some (Int.lt_add_of_pos_right now httl)]
          rfl
        · rw [Option.map_some, if_neg he, alive_expired (not_lt.mp he)]
          rfl
  · rfl

theorem Follows.get (h : c.Follows now entries) (hc : c.Ready now) (key : κ) :
    (c.get now key).1.Follows now fun k => c.trace k now (entries k) (.get key) := by
  intro k
  rw [hc.alive_get, alive_trace_get hc.ttl, h k]

theorem Follows.set (h : c.Follows now entries) (hc : c.Ready now) (key : κ) (value : ν) :
    (c.set now key value).Follows now fun k => c.trace k now (entries k) (.set key value) := by
  intro k
  simp only [trace]
  by_cases hk : k = key
  · subst hk
    rw [hc.get?_set_self, if_pos rfl]
  · rw [hc.get?_set_of_ne hk, if_neg (Ne.symm hk)]
    split
    · rfl
    · exact h k

theorem Follows.pop (h : c.Follows now entries) (key : κ) :
    (c.pop key).Follows now fun k => c.trace k now (entries k) (.pop key) := by
  intro k
  show alive now ((c.store.pop key).get? k) = _
  rw [Dict.get?_pop]
  simp only [trace]
  by_cases hk : k = key
  · rw [if_pos hk, if_pos hk.symm]
  · rw [if_neg hk, if_neg (Ne.symm hk)]
    exact h k

/-- The limits of the cache stay as they are. -/
structure SameLimits (c c' : TtlCache κ ν) : Prop where
  ttlSeconds : c'.ttlSeconds = c.ttlSeconds
  maxsize : c'.maxsize = c.maxsize

omit [DecidableEq κ] in
theorem SameLimits.trans {c c' c'' : TtlCache κ ν} (h : SameLimits c c')
    (h' : SameLimits c' c'') : SameLimits c c'' := by
  constructor
  · rw [h'.ttlSeconds, h.ttlSeconds]
  · rw [h'.maxsize, h.maxsize]

theorem sameLimits_perform (c : TtlCache κ ν) (now : ℤ) (op : Op κ ν) :
    SameLimits c (c.perform now op) := by
  cases op with
  | get key =>
      simp only [perform, TtlCache.get]
      split
      · exact ⟨rfl, rfl⟩
      · split
        · exact ⟨rfl, rfl⟩
        · split
          · exact ⟨rfl, rfl⟩
          · split <;> exact ⟨rfl, rfl⟩
  | set key value =>
      simp only [perform, TtlCache.set]
      split
      · exact ⟨rfl, rfl⟩
      · unfold evictIfNeeded
        split
        · exact ⟨rfl, rfl⟩
        · simp only
          split <;> exact ⟨rfl, rfl⟩
  | pop key => exact ⟨rfl, rfl⟩

/-- A get changes nothing but the time of an entry, or drops one. -/
theorem Ready.get (h : c.Ready now) (key : κ) : (c.get now key).1.Ready now := by
  have hlimits := sameLimits_perform c now (.get key)
  change SameLimits c (c.get now key).1 at hlimits
  have hstore : ((c.get now key).1.store.items.length : ℤ) ≤ c.maxsize ∧
      ∀ item ∈ (c.get now key).1.store.items, item.2.2 ≤ now + c.ttlSeconds := by
    unfold TtlCache.get
    rw [if_neg h.enabled]
    cases hget : c.store.get? key with
    | none => exact ⟨h.fits, h.soon⟩
    | some item =>
        simp only
        split
        · have hcount := Dict.length_pop hget
          have hfits := h.fits
          refine ⟨?_, fun x hx => h.soon x (List.mem_filter.mp hx).1⟩
          show ((c.store.pop key).items.length : ℤ) ≤ c.maxsize
          omega
        · split
          · refine ⟨?_, ?_⟩
            · show ((c.store.set key _).items.length : ℤ) ≤ c.maxsize
              rw [Dict.length_set_of_some hget]
              exact h.fits
            · rintro ⟨k, e⟩ hx
              rcases (Dict.mem_assign c.store.nodup).mp hx with ⟨-, rfl⟩ | ⟨-, hx⟩
              · exact le_rfl
              · exact h.soon _ hx
          · exact ⟨h.fits, h.soon⟩
  refine ⟨?_, ?_, ?_, ?_⟩
  · rw [hlimits.ttlSeconds]
    exact h.ttl
  · rw [hlimits.maxsize]
    exact h.room
  · rw [hlimits.maxsize]
    exact hstore.1
  · rw [hlimits.ttlSeconds]
    exact hstore.2

theorem Ready.set (h : c.Ready now) (key : κ) (value : ν) : (c.set now key value).Ready now := by
  have hlimits := sameLimits_perform c now (.set key value)
  change SameLimits c (c.set now key value) at hlimits
  refine ⟨?_, ?_, ?_, ?_⟩
  · rw [hlimits.ttlSeconds]
    exact h.ttl
  · rw [hlimits.maxsize]
    exact h.room
  · rw [hlimits.maxsize]
    exact h.length_set
  · rw [hlimits.ttlSeconds]
    rintro ⟨k, e⟩ hx
    rcases (Dict.mem_assign c.store.nodup).mp (h.sublist_set.subset hx) with ⟨-, rfl⟩ | ⟨-, hx⟩
    · exact le_rfl
    · exact h.soon _ hx

theorem Ready.pop (h : c.Ready now) (key : κ) : (c.pop key).Ready now := by
  have hfits := h.fits
  have hcount : (c.store.pop key).items.length ≤ c.store.items.length := List.length_filter_le _ _
  refine ⟨h.ttl, h.room, ?_, fun x hx => h.soon x (List.mem_filter.mp hx).1⟩
  show ((c.store.pop key).items.length : ℤ) ≤ c.maxsize
  omega

theorem Ready.perform (h : c.Ready now) (hf : c.Follows now entries) (op : Op κ ν) :
    (c.perform now op).Ready now ∧
      (c.perform now op).Follows now fun k => c.trace k now (entries k) op := by
  cases op with
  | get key => exact ⟨h.get key, hf.get h key⟩
  | set key value => exact ⟨h.set key value, hf.set h key value⟩
  | pop key => exact ⟨h.pop key, hf.pop key⟩

theorem latest_concat (k : κ) (c : TtlCache κ ν) (entry : Option (ν × ℤ))
    (ops : List (ℤ × Op κ ν)) (now : ℤ) (op : Op κ ν) :
    latest k c entry (ops ++ [(now, op)]) =
      (c.after ops).trace k now (latest k c entry ops) op := by
  induction ops generalizing c entry with
  | nil => rfl
  | cons o ops ih => exact ih _ _

theorem after_concat (c : TtlCache κ ν) (ops : List (ℤ × Op κ ν)) (now : ℤ) (op : Op κ ν) :
    c.after (ops ++ [(now, op)]) = (c.after ops).perform now op := by
  unfold after
  rw [List.foldl_append]
  rfl

theorem sameLimits_after (c : TtlCache κ ν) (ops : List (ℤ × Op κ ν)) :
    SameLimits c (c.after ops) := by
  induction ops generalizing c with
  | nil => exact ⟨rfl, rfl⟩
  | cons op ops ih => exact (sameLimits_perform c op.1 op.2).trans (ih _)

section Runs

variable {ttlSeconds maxsize : ℤ} {refreshOnGet : Bool} {ops : List (ℤ × Op κ ν)}

theorem follows_after (httl : 0 < ttlSeconds) (hmaxsize : 0 < maxsize)
    (hclock : Chronological ops) (hlast : ∀ op ∈ ops, op.1 ≤ now) :
    ((empty κ ν ttlSeconds maxsize refreshOnGet).after ops).Ready now ∧
      ((empty κ ν ttlSeconds maxsize refreshOnGet).after ops).Follows now fun k =>
        latest k (empty κ ν ttlSeconds maxsize refreshOnGet) none ops := by
  have hrun := hclock.invariant (f := fun c op => c.perform op.1 op.2)
    (I := fun ops now c => c = (empty κ ν ttlSeconds maxsize refreshOnGet).after ops ∧
      c.Ready now ∧ c.Follows now fun k =>
        latest k (empty κ ν ttlSeconds maxsize refreshOnGet) none ops)
    (s := empty κ ν ttlSeconds maxsize refreshOnGet) (P := fun _ => True) ?_ ?_ ?_
    (fun _ _ => trivial) hlast
  · exact hrun.2
  · intro t
    refine ⟨rfl, ⟨httl, hmaxsize, ?_, fun item hitem => by cases hitem⟩, fun k => rfl⟩
    exact hmaxsize.le
  · rintro ops now t c ⟨hc, hready, hfollows⟩ ht
    refine ⟨hc, hready.later ht, ?_⟩
    intro k
    rw [alive_later ht, hfollows k, ← alive_later ht]
  · rintro ops now c op - ⟨rfl, hready, hfollows⟩
    have hstep := hready.perform hfollows op
    refine ⟨(after_concat _ ops now op).symm, hstep.1, ?_⟩
    intro k
    show alive now _ = alive now (latest k _ none (ops ++ [(now, op)]))
    rw [latest_concat]
    exact hstep.2 k

/-- After any operations under a clock that does not go back, the cache is not above its
size; a get finds the value set last, unless it was popped or evicted or has expired; a set
never evicts its own entry, and an overflow takes what has expired, then what expires first. -/
theorem ttl_cache_spec (httl : 0 < ttlSeconds) (hmaxsize : 0 < maxsize)
    (hclock : Chronological ops) (hlast : ∀ op ∈ ops, op.1 ≤ now) :
    let c := (empty κ ν ttlSeconds maxsize refreshOnGet).after ops
    (c.store.items.length : ℤ) ≤ maxsize ∧
      ∀ key, (c.get now key).2 =
          (alive now (latest key (empty κ ν ttlSeconds maxsize refreshOnGet) none ops)).map
            Prod.fst ∧
        ∀ value, (c.set now key value).store.get? key = some (value, now + ttlSeconds) ∧
          Fitted maxsize now (c.stored now key value).items
            (c.set now key value).store.items := by
  intro c
  have hafter : c.Ready now ∧ c.Follows now fun k =>
      latest k (empty κ ν ttlSeconds maxsize refreshOnGet) none ops :=
    follows_after httl hmaxsize hclock hlast
  have hlimits := sameLimits_after (empty κ ν ttlSeconds maxsize refreshOnGet) ops
  have httl' : c.ttlSeconds = ttlSeconds := hlimits.ttlSeconds
  have hmaxsize' : c.maxsize = maxsize := hlimits.maxsize
  obtain ⟨hready, hfollows⟩ := hafter
  refine ⟨hmaxsize' ▸ hready.fits, fun key => ⟨?_, fun value => ⟨?_, ?_⟩⟩⟩
  · rw [hready.get_value, hfollows key]
  · rw [hready.get?_set_self, httl']
  · rw [← hmaxsize']
    exact hready.fitted key value

end Runs

/-- Refreshed by its get, the entry outlives the one set after it. -/
theorem ttl_cache_spec_refreshed :
    let c := (empty String ℕ 10 2 true).after
      [(0, .set "a" 1), (4, .set "b" 2), (9, .get "a"), (12, .set "a" 3), (13, .pop "b")]
    (c.store.items.length : ℤ) ≤ 2 ∧ (c.get 21 "a").2 = some 3 ∧ (c.get 21 "b").2 = none := by
  intro c
  have hspec : (c.store.items.length : ℤ) ≤ 2 ∧ ∀ key, (c.get 21 key).2 = _ ∧ _ :=
    ttl_cache_spec (by decide) (by decide) (by unfold Chronological; decide) (by decide)
  refine ⟨hspec.1, ?_, ?_⟩
  · rw [(hspec.2 "a").1]
    rfl
  · rw [(hspec.2 "b").1]
    rfl

end TtlCache

end OpencodeA2a.Store
