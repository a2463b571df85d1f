import Mathlib.Data.List.Induction
import Mathlib.Data.List.Pairwise
import Mathlib.Order.Defs.PartialOrder

/-!
# Calls under a clock that does not go back

A history is a list of calls, each with the clock's reading. An invariant may speak of
the history and of the time: it holds from any reading until the next call.
-/

namespace OpencodeA2a

variable {τ α σ : Type} [LE τ]

/-- The times do not decrease. -/
def Chronological (calls : List (τ × α)) : Prop := (calls.map Prod.fst).Pairwise (· ≤ ·)

namespace Chronological

theorem append {calls calls' : List (τ × α)} (h : Chronological (calls ++ calls')) :
    Chronological calls ∧ Chronological calls' ∧ ∀ c ∈ calls, ∀ c' ∈ calls', c.1 ≤ c'.1 := by
  unfold Chronological at h
  rw [List.map_append, List.pairwise_append] at h
  refine ⟨h.1, h.2.1, ?_⟩
  intro c hc c' hc'
  exact h.2.2 c.1 (List.mem_map_of_mem hc) c'.1 (List.mem_map_of_mem hc')

/-- The calls before a last one, with its time. -/
theorem concat {calls : List (τ × α)} {t : τ} {a : α} (h : Chronological (calls ++ [(t, a)])) :
    Chronological calls ∧ ∀ c ∈ calls, c.1 ≤ t := by
  obtain ⟨hcalls, -, hlast⟩ := h.append
  exact ⟨hcalls, fun c hc => hlast c hc _ (List.mem_singleton_self _)⟩

/-- What a call keeps at its time, and time alone keeps, every history keeps. -/
theorem invariant {f : σ → τ × α → σ} {I : List (τ × α) → τ → σ → Prop} {s : σ}
    {P : τ × α → Prop} (hstart : ∀ t, I [] t s)
    (hlater : ∀ calls now t s, I calls now s → now ≤ t → I calls t s)
    (hstep : ∀ calls now s a, P (now, a) → I calls now s →
      I (calls ++ [(now, a)]) now (f s (now, a)))
    {calls : List (τ × α)} (h : Chronological calls) (hok : ∀ c ∈ calls, P c) {t : τ}
    (ht : ∀ c ∈ calls, c.1 ≤ t) : I calls t (calls.foldl f s) := by
  induction calls using List.reverseRecOn generalizing t with
  | nil => exact hstart t
  | append_singleton calls c ih =>
      obtain ⟨now, a⟩ := c
      obtain ⟨hcalls, hlast⟩ := h.concat
      have hbefore := ih hcalls (fun c hc => hok c (List.mem_append_left _ hc)) hlast
      have hafter := hstep calls now _ a
        (hok _ (List.mem_append_right _ (List.mem_singleton_self _))) hbefore
      rw [List.foldl_append]
      exact hlater _ now t _ hafter (ht _ (List.mem_append_right _ (List.mem_singleton_self _)))

/-- More calls, all of them at a time that none of those before is behind. -/
theorem append_of_forall_eq {τ : Type} [Preorder τ] {calls calls' : List (τ × α)} {now : τ}
    (h : Chronological calls) (hpast : ∀ c ∈ calls, c.1 ≤ now) (hnow : ∀ c ∈ calls', c.1 = now) :
    Chronological (calls ++ calls') := by
  unfold Chronological at h ⊢
  rw [List.map_append, List.pairwise_append]
  refine ⟨h, ?_, ?_⟩
  · refine List.pairwise_map.mpr (List.pairwise_of_forall_mem_list fun c hc c' hc' => ?_)
    rw [hnow c hc, hnow c' hc']
  · intro e he e' he'
    obtain ⟨c, hc, rfl⟩ := List.mem_map.mp he
    obtain ⟨c', hc', rfl⟩ := List.mem_map.mp he'
    rw [hnow c' hc']
    exact hpast c hc

end Chronological

end OpencodeA2a
