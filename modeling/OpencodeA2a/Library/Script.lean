import Mathlib.Data.Nat.Notation
import Mathlib.Data.List.Basic

/-!
# Scripts that may stop anywhere

A script is a list of statements, each of which changes a state or fails; it stops at
the first that fails, or where it is interrupted. Its statements may come in blocks,
each of which ends with a checkpoint: an interrupted script has then left the state at
the checkpoint of the last block that it completed (`perform_blocks`).
-/

namespace OpencodeA2a.Script

variable {α σ ε κ : Type} (exec : α → σ → Except ε σ)

/-- The state after the statements up to the first failure, and the failure. -/
def perform : List α → σ → σ × Option ε
  | [], s => (s, none)
  | a :: l, s =>
      match exec a s with
      | .ok t => perform l t
      | .error e => (s, some e)

/-- Interrupted within the block, the script leaves the state at `k`; the whole block
brings it to `k'`. -/
structure Brings (At : Option κ → σ → Prop) (k : Option κ) (k' : κ) (block : List α) : Prop where
  within : ∀ s, At k s → ∀ j < block.length,
    ∃ t, perform exec (block.take j) s = (t, none) ∧ At k t
  whole : ∀ s, At k s → ∃ t, perform exec block s = (t, none) ∧ At (some k') t

/-- Each block starts where the one before it ends. -/
def Chained (At : Option κ → σ → Prop) : Option κ → List (κ × List α) → Prop
  | _, [] => True
  | k, (k', block) :: blocks => Brings exec At k k' block ∧ Chained At (some k') blocks

def statements (blocks : List (κ × List α)) : List α := blocks.flatMap Prod.snd

/-- The checkpoints that the first `j` statements reach. -/
def completed : List (κ × List α) → ℕ → List κ
  | [], _ => []
  | (k, block) :: blocks, j =>
      if block.length ≤ j then k :: completed blocks (j - block.length) else []

variable {exec}

theorem perform_cons {a : α} {s t : σ} (h : exec a s = .ok t) (l : List α) :
    perform exec (a :: l) s = perform exec l t := by
  simp only [perform, h]

theorem perform_append {l : List α} {s t : σ} (h : perform exec l s = (t, none)) (l' : List α) :
    perform exec (l ++ l') s = perform exec l' t := by
  induction l generalizing s with
  | nil =>
      cases h
      rfl
  | cons a l ih =>
      simp only [perform] at h
      cases ha : exec a s with
      | error e =>
          rw [ha] at h
          cases h
      | ok u =>
          rw [ha] at h
          rw [List.cons_append, perform_cons ha]
          exact ih h

/-- A script of statements that never fail while `I` holds, and do not undo each
other's work. -/
theorem perform_each {I : σ → Prop} {Done : α → σ → Prop} {l : List α}
    (hexec : ∀ a ∈ l, ∀ s, I s →
      ∃ t, exec a s = .ok t ∧ I t ∧ Done a t ∧ ∀ b, Done b s → Done b t)
    {s : σ} (hs : I s) :
    ∃ t, perform exec l s = (t, none) ∧ I t ∧ (∀ a ∈ l, Done a t) ∧ ∀ b, Done b s → Done b t := by
  induction l generalizing s with
  | nil => exact ⟨s, rfl, hs, fun a ha => absurd ha List.not_mem_nil, fun b hb => hb⟩
  | cons a l ih =>
      obtain ⟨t, ht, hit, hdone, hkept⟩ := hexec a (List.mem_cons_self ..) s hs
      obtain ⟨u, hu, hiu, hall, hkept'⟩ := ih (fun b hb => hexec b (List.mem_cons_of_mem a hb)) hit
      refine ⟨u, (perform_cons ht l).trans hu, hiu, ?_, fun b hb => hkept' b (hkept b hb)⟩
      intro b hb
      rcases List.mem_cons.mp hb with rfl | hb
      · exact hkept' b hdone
      · exact hall b hb

/-- Wherever a chain of blocks stops, the state is at the last checkpoint reached. -/
theorem perform_blocks {At : Option κ → σ → Prop} {blocks : List (κ × List α)} {k : Option κ}
    (h : Chained exec At k blocks) {s : σ} (hs : At k s) (j : ℕ) :
    ∃ t, perform exec ((statements blocks).take j) s = (t, none) ∧
      At ((completed blocks j).getLast?.or k) t := by
  induction blocks generalizing k s j with
  | nil => exact ⟨s, by simp [statements, perform], hs⟩
  | cons b blocks ih =>
      obtain ⟨k', block⟩ := b
      obtain ⟨hblock, hrest⟩ := h
      have hflat : statements ((k', block) :: blocks) = block ++ statements blocks := rfl
      rw [hflat, List.take_append]
      by_cases hj : block.length ≤ j
      · obtain ⟨t, ht, hat⟩ := hblock.whole s hs
        obtain ⟨u, hu, hau⟩ := ih hrest hat (j - block.length)
        refine ⟨u, ?_, ?_⟩
        · rw [List.take_of_length_le hj, perform_append ht, hu]
        · simp only [completed, if_pos hj, List.getLast?_cons]
          cases hlast : (completed blocks (j - block.length)).getLast? with
          | none =>
              rw [hlast] at hau
              exact hau
          | some k'' =>
              rw [hlast] at hau
              exact hau
      · have hj' : j < block.length := Nat.lt_of_not_le hj
        obtain ⟨t, ht, hat⟩ := hblock.within s hs j hj'
        refine ⟨t, ?_, ?_⟩
        · have hnone : j - block.length = 0 := by omega
          rw [hnone, List.take_zero, List.append_nil, ht]
        · simp only [completed, if_neg hj]
          exact hat

theorem completed_all (blocks : List (κ × List α)) {j : ℕ} (hj : (statements blocks).length ≤ j) :
    completed blocks j = blocks.map Prod.fst := by
  induction blocks generalizing j with
  | nil => rfl
  | cons b blocks ih =>
      obtain ⟨k, block⟩ := b
      have hflat : (statements ((k, block) :: blocks)).length
          = block.length + (statements blocks).length := by
        simp [statements]
      rw [hflat] at hj
      simp only [completed, if_pos (show block.length ≤ j by omega), List.map_cons]
      rw [ih (by omega)]

end OpencodeA2a.Script
