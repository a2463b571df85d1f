import Mathlib.Data.List.Nodup
import OpencodeA2a.Stream.Runtime

/-!
# Sequence numbers and event ids

With the stream hints an event of the stream bears a sequence number, and an event id made of
it. A number is drawn from the output state by what is enqueued with it, and by nothing else.
-/

namespace OpencodeA2a.Stream

/-! ## §1  The numbers of events -/

/-- The sequence number and the event id of an event that bears a number. -/
def Event.number? : Event → Option (ℕ × Text)
  | .artifact u => u.metadata.map fun m => (m.sequence, m.eventId)
  | .task _ _ _ m | .status _ m => m.stream.bind fun s => s.sequence.map fun n => (n, s.eventId)

def numbersOf (events : List Event) : List (ℕ × Text) := events.filterMap Event.number?

theorem numbersOf_append (a b : List Event) : numbersOf (a ++ b) = numbersOf a ++ numbersOf b :=
  List.filterMap_append

theorem numbersOf_cons {e : Event} {x : ℕ × Text} (h : e.number? = some x) (events : List Event) :
    numbersOf (e :: events) = x :: numbersOf events :=
  List.filterMap_cons_some h

/-- The first `n` numbers, with their event ids. -/
def issued (s : StreamOutputState) (n : ℕ) : List (ℕ × Text) :=
  (List.range' 1 n).map fun k => (k, s.buildEventId k)

theorem issued_succ (s : StreamOutputState) (n : ℕ) :
    issued s (n + 1) = issued s n ++ [(n + 1, s.buildEventId (n + 1))] := by
  unfold issued
  rw [List.range'_concat, List.map_append, Nat.one_mul, Nat.add_comm 1 n]
  rfl

/-- The beginning of what was issued was issued. -/
theorem eq_issued_of_append {s : StreamOutputState} {a b : List (ℕ × Text)} {n : ℕ}
    (h : a ++ b = issued s n) : ∃ m, a = issued s m := by
  induction n generalizing b with
  | zero => exact ⟨0, (List.append_eq_nil_iff.mp h).1⟩
  | succ n ih =>
      rcases List.eq_nil_or_concat b with rfl | ⟨b, x, rfl⟩
      · exact ⟨n + 1, (List.append_nil a).symm.trans h⟩
      · rw [issued_succ, List.concat_eq_append, ← List.append_assoc] at h
        exact ih (List.append_inj_left' h rfl)

theorem buildEventId_injective (s : StreamOutputState) : Function.Injective s.buildEventId := by
  intro m n h
  have hdigits : Nat.toDigits 10 m = Nat.toDigits 10 n := by
    rw [← Nat.toList_repr, ← Nat.toList_repr]
    exact List.append_cancel_left h
  rw [← Nat.ofDigitChars_ten_toDigits (n := m), hdigits, Nat.ofDigitChars_ten_toDigits]

/-- The numbers count up from one. -/
theorem fst_issued (s : StreamOutputState) (n : ℕ) :
    (issued s n).map Prod.fst = List.range' 1 n := by
  unfold issued
  rw [List.map_map]
  exact List.map_id _

/-- No two event ids are the same. -/
theorem nodup_snd_issued (s : StreamOutputState) (n : ℕ) :
    ((issued s n).map Prod.snd).Nodup := by
  unfold issued
  rw [List.map_map]
  exact List.Nodup.map (buildEventId_injective s) List.nodup_range'

/-! ## §2  Drawing a number -/

namespace StreamOutputState

variable {s s' : StreamOutputState}

/-- The counter and the namespace of the event ids are the same in both states. -/
structure SameNumbers (s s' : StreamOutputState) : Prop where
  eventIdNamespace : s'.eventIdNamespace = s.eventIdNamespace
  sequence : s'.sequence = s.sequence

theorem SameNumbers.refl (s : StreamOutputState) : s.SameNumbers s := ⟨rfl, rfl⟩

theorem issued_congr (h : s'.eventIdNamespace = s.eventIdNamespace) (n : ℕ) :
    issued s' n = issued s n := by
  unfold issued buildEventId
  rw [h]

theorem registerChunk_numbers {artifactId contentKey : Text} {append accumulate b : Bool}
    (h : s.registerChunk artifactId contentKey append accumulate = some (s', b)) :
    s.SameNumbers s' := by
  unfold registerChunk at h
  simp only at h
  split at h <;> cases h
  exact ⟨rfl, rfl⟩

theorem rememberTextArtifactId_numbers (s : StreamOutputState) (artifactId : Text) :
    s.SameNumbers (s.rememberTextArtifactId artifactId) := by
  unfold rememberTextArtifactId
  split <;> exact ⟨rfl, rfl⟩

theorem registerProgress_numbers {identity contentKey : Text}
    (h : s.registerProgress identity contentKey = some s') : s.SameNumbers s' := by
  unfold registerProgress at h
  split at h <;> cases h
  exact ⟨rfl, rfl⟩

theorem shouldEmitFinalSnapshot_numbers {artifactId text : Text}
    (h : s.shouldEmitFinalSnapshot artifactId text = some s') : s.SameNumbers s' := by
  rw [shouldEmitFinalSnapshot_update h]
  exact ⟨rfl, rfl⟩

theorem markInterruptPending_numbers {requestId : Text}
    (h : s.markInterruptPending requestId = some s') : s.SameNumbers s' := by
  unfold markInterruptPending at h
  split at h
  · cases h
  · split at h <;> cases h
    exact ⟨rfl, rfl⟩

theorem clearInterruptPending_numbers {requestId : Text}
    (h : s.clearInterruptPending requestId = some s') : s.SameNumbers s' := by
  unfold clearInterruptPending at h
  split at h
  · cases h
  · split at h <;> cases h
    exact ⟨rfl, rfl⟩

end StreamOutputState

open StreamOutputState

variable {cfg : Config}

/-- The event `e` bears the number that was drawn between the two states. -/
structure Draws (s s' : StreamOutputState) (e : Event) : Prop where
  eventIdNamespace : s'.eventIdNamespace = s.eventIdNamespace
  sequence : s'.sequence = s.sequence + 1
  number : e.number? = some (s'.sequence, s.buildEventId s'.sequence)

/-- What was issued, with the number drawn, is what is issued then. -/
theorem Draws.issued {s s' : StreamOutputState} {e : Event} (h : Draws s s' e) :
    issued s' s'.sequence = issued s s.sequence ++ numbersOf [e] := by
  rw [issued_congr h.eventIdNamespace, numbersOf_cons h.number, h.sequence, issued_succ]
  rfl

theorem draws_streamStatus (hhints : cfg.emitStreamingMetadata = true) (s : StreamOutputState)
    (state : TaskState) (messageId : Option Text) (progress : Option Progress)
    (interrupt : Option InterruptMetadata) : Draws s s.nextSequence
      (streamStatus cfg s.nextSequence state messageId progress interrupt) := by
  refine ⟨rfl, rfl, ?_⟩
  unfold streamStatus buildOutputMetadata
  simp only [hhints, if_true]
  rfl

theorem draws_artifact (hhints : cfg.emitStreamingMetadata = true) {s s' : StreamOutputState}
    (h : s.SameNumbers s') {u : ArtifactUpdate} {blockType : BlockType} {messageId : Text}
    (hu : u.metadata = buildStreamArtifactMetadata cfg blockType messageId s'.nextSequence) :
    Draws s s'.nextSequence (.artifact u) := by
  refine ⟨h.eventIdNamespace, congrArg (· + 1) h.sequence, ?_⟩
  unfold Event.number?
  simp only
  rw [hu]
  unfold buildStreamArtifactMetadata buildEventId
  rw [if_pos hhints]
  exact congrArg (fun x => some (_, x ++ ":".toList ++ _)) h.eventIdNamespace

theorem draws_emitChunk (hhints : cfg.emitStreamingMetadata = true) {s s' : StreamOutputState}
    {chunk : NormalizedStreamChunk} {u : ArtifactUpdate}
    (h : emitChunk cfg s chunk = (s', some u)) : Draws s s' (.artifact u) := by
  unfold emitChunk at h
  split at h
  · cases h
  · split at h
    · cases h
    · rename_i s₁ b hregister
      have hregistered := registerChunk_numbers hregister
      have hremembered : s.SameNumbers
          (if chunk.blockType = .text then s₁.rememberTextArtifactId chunk.artifactId else s₁) := by
        split
        · have hsame := rememberTextArtifactId_numbers s₁ chunk.artifactId
          exact ⟨hsame.eventIdNamespace.trans hregistered.eventIdNamespace,
            hsame.sequence.trans hregistered.sequence⟩
        · exact hregistered
      cases h
      exact draws_artifact hhints hremembered rfl

/-- With the hints, whatever an act puts bears the number drawn for it. -/
theorem draws_act_perform (hhints : cfg.emitStreamingMetadata = true) {s : StreamOutputState}
    {a : Act} {e : Event} (h : (a.perform cfg s).2 = .put e) :
    Draws s (a.perform cfg s).1 e := by
  cases a with
  | chunk chunk =>
      simp only [Act.perform] at h ⊢
      split at h <;> rename_i heq <;> cases h
      exact draws_emitChunk hhints heq
  | progress | asked | resolved =>
      cases h
      exact draws_streamStatus hhints s ..
  | rememberRequest | discardRequest => cases h

/-- No operation draws a number of its own. -/
theorem op_perform_numbers (cfg : Config) (rt : Runtime) (op : Op) :
    rt.out.SameNumbers (op.perform cfg rt).1.out := by
  cases op with
  | upstreamError | usage | terminalSignal => exact ⟨rfl, rfl⟩
  | part e =>
      show rt.out.SameNumbers (rt.handlePart cfg e).1.out
      rw [handlePart_out]
      exact .refl _
  | progress i p mid =>
      simp only [Op.perform]
      split
      · exact .refl _
      · rename_i out hout
        exact registerProgress_numbers hout
  | asked a =>
      simp only [Op.perform]
      split
      · exact .refl _
      · rename_i out hout
        exact markInterruptPending_numbers hout
  | resolved a =>
      simp only [Op.perform]
      split
      · exact .refl _
      · rename_i out hout
        exact clearInterruptPending_numbers hout

end OpencodeA2a.Stream
