import OpencodeA2a.Client.PayloadText
import OpencodeA2a.Execution.Reconstruction

/-!
# The output of `a2a_call`

`handle_a2a_call_tool` merges the texts of whatever a peer streams. Against a
server of this repository it should come out with the text lane of the stream;
`round_trip_iff` says for which streams it does.
-/

namespace OpencodeA2a.Execution

open OpencodeA2a.Client OpencodeA2a.Stream

/-! ## §1  `merge_streamed_tool_output` -/

/-- `startswith(("\n", " ", "\t"))`, `endswith` of the same -/
def breaks (c : Option Char) : Bool := c == some '\n' || c == some ' ' || c == some '\t'

/-- The separator between what is there and what is appended. -/
def separator (current incoming : Text) : Text :=
  if breaks current.getLast? || breaks incoming.head? then [] else ['\n']

def mergeStreamedToolOutput (current incoming : Text) : Text :=
  if current = [] then incoming
  else if incoming = current ∨ incoming <:+: current then current
  else if current <+: incoming then incoming
  else if incoming <+: current then current
  else current ++ separator current incoming ++ incoming

structure ToolError where
  errorCode : Text
  error : Text
  errorMeta : Mapping := []

/-- The client manager, as a call of it ends: with the responses that the peer
streamed, or with the error that its exception is mapped to. -/
abbrev Peer := Json → Json → Except ToolError (List StreamResponse)

variable {current incoming : Text}

/-- The text after a payload; `[]` stands for a payload without text. -/
def takeIn (current incoming : Text) : Text :=
  if incoming = [] then current else mergeStreamedToolOutput current incoming

/-- The payload leaves no trace. -/
def Hidden (current incoming : Text) : Prop :=
  incoming = [] ∨ current ≠ [] ∧ incoming <:+: current

instance : Decidable (Hidden current incoming) := inferInstanceAs (Decidable (_ ∨ _ ∧ _))

/-- The branches of `merge_streamed_tool_output` for two texts that are not empty. -/
theorem merge_cases (incoming : Text) (hcurrent : current ≠ []) :
    incoming <:+: current ∧ mergeStreamedToolOutput current incoming = current ∨
    ¬ incoming <:+: current ∧ current <+: incoming ∧
      mergeStreamedToolOutput current incoming = incoming ∨
    ¬ incoming <:+: current ∧ ¬ current <+: incoming ∧
      mergeStreamedToolOutput current incoming =
        current ++ separator current incoming ++ incoming := by
  unfold mergeStreamedToolOutput
  rw [if_neg hcurrent]
  by_cases hin : incoming <:+: current
  · exact .inl ⟨hin, if_pos (.inr hin)⟩
  · have hne : ¬ (incoming = current ∨ incoming <:+: current) := by
      rintro (rfl | h)
      · exact hin (List.infix_refl incoming)
      · exact hin h
    rw [if_neg hne]
    by_cases hpre : current <+: incoming
    · exact .inr (.inl ⟨hin, hpre, if_pos hpre⟩)
    · rw [if_neg hpre, if_neg fun h => hin h.isInfix]
      exact .inr (.inr ⟨hin, hpre, rfl⟩)

theorem takeIn_of_hidden (h : Hidden current incoming) : takeIn current incoming = current := by
  unfold takeIn
  rcases h with h | ⟨hcurrent, hin⟩
  · exact if_pos h
  · by_cases hempty : incoming = []
    · exact if_pos hempty
    · rw [if_neg hempty]
      rcases merge_cases incoming hcurrent with ⟨-, heq⟩ | ⟨h, -, -⟩ | ⟨h, -, -⟩
      · exact heq
      · exact absurd hin h
      · exact absurd hin h

theorem takeIn_of_extends (hhidden : ¬ Hidden current incoming) (hpre : current <+: incoming) :
    takeIn current incoming = incoming := by
  have hempty : incoming ≠ [] := fun h => hhidden (.inl h)
  unfold takeIn
  rw [if_neg hempty]
  by_cases hcurrent : current = []
  · subst hcurrent
    rfl
  · rcases merge_cases incoming hcurrent with ⟨h, -⟩ | ⟨-, -, heq⟩ | ⟨-, h, -⟩
    · exact absurd (.inr ⟨hcurrent, h⟩) hhidden
    · exact heq
    · exact absurd hpre h

theorem takeIn_of_not_extends (hhidden : ¬ Hidden current incoming)
    (hpre : ¬ current <+: incoming) :
    takeIn current incoming = current ++ separator current incoming ++ incoming := by
  have hempty : incoming ≠ [] := fun h => hhidden (.inl h)
  have hcurrent : current ≠ [] := by
    rintro rfl
    exact hpre List.nil_prefix
  unfold takeIn
  rw [if_neg hempty]
  rcases merge_cases incoming hcurrent with ⟨h, -⟩ | ⟨-, h, -⟩ | ⟨-, -, heq⟩
  · exact absurd (.inr ⟨hcurrent, h⟩) hhidden
  · exact absurd h hpre
  · exact heq

/-- What has been taken in stands in front for good. -/
theorem prefix_takeIn (current incoming : Text) : current <+: takeIn current incoming := by
  by_cases hhidden : Hidden current incoming
  · rw [takeIn_of_hidden hhidden]
  · by_cases hpre : current <+: incoming
    · rw [takeIn_of_extends hhidden hpre]
      exact hpre
    · rw [takeIn_of_not_extends hhidden hpre, List.append_assoc]
      exact List.prefix_append current _

theorem prefix_foldl_takeIn (current : Text) (texts : List Text) :
    current <+: texts.foldl takeIn current := by
  induction texts generalizing current with
  | nil => exact List.prefix_refl current
  | cons incoming texts ih =>
      exact (prefix_takeIn current incoming).trans (ih (takeIn current incoming))

/-- The texts spell the answer, of which `current` is there: each shows nothing new, or
repeats what is there and goes on as the answer does, or is what the answer goes on with. -/
def Spells (answer : Text) : Text → List Text → Prop
  | current, [] => current = answer
  | current, incoming :: texts =>
      if Hidden current incoming then Spells answer current texts
      else if current <+: incoming then incoming <+: answer ∧ Spells answer incoming texts
      else
        current ++ separator current incoming ++ incoming <+: answer ∧
          Spells answer (current ++ separator current incoming ++ incoming) texts

instance Spells.decidable (answer : Text) :
    (current : Text) → (texts : List Text) → Decidable (Spells answer current texts)
  | current, [] => inferInstanceAs (Decidable (current = answer))
  | current, incoming :: texts =>
      have := Spells.decidable answer current texts
      have := Spells.decidable answer incoming texts
      have := Spells.decidable answer (current ++ separator current incoming ++ incoming) texts
      inferInstanceAs (Decidable (if Hidden current incoming then Spells answer current texts
        else if current <+: incoming then incoming <+: answer ∧ Spells answer incoming texts
        else
          current ++ separator current incoming ++ incoming <+: answer ∧
            Spells answer (current ++ separator current incoming ++ incoming) texts))

theorem foldl_takeIn_eq_iff {answer : Text} {texts : List Text} :
    texts.foldl takeIn current = answer ↔ Spells answer current texts := by
  -- what is taken in has to be part of the answer, as it stays in front
  have hstays : ∀ (t : Text) (texts : List Text),
      texts.foldl takeIn t = answer ↔ t <+: answer ∧ texts.foldl takeIn t = answer := by
    intro t texts
    refine ⟨fun h => ⟨?_, h⟩, And.right⟩
    rw [← h]
    exact prefix_foldl_takeIn t texts
  induction texts generalizing current with
  | nil => exact Iff.rfl
  | cons incoming texts ih =>
      rw [List.foldl_cons]
      unfold Spells
      by_cases hhidden : Hidden current incoming
      · rw [if_pos hhidden, takeIn_of_hidden hhidden]
        exact ih
      · rw [if_neg hhidden]
        by_cases hpre : current <+: incoming
        · rw [if_pos hpre, takeIn_of_extends hhidden hpre, hstays]
          exact and_congr_right fun _ => ih
        · rw [if_neg hpre, takeIn_of_not_extends hhidden hpre, hstays]
          exact and_congr_right fun _ => ih

/-! ## §4  The stream of a server of this repository -/

/-- The part as it is sent. -/
def partPayload : Part → PayloadPart
  | .text t => .ofText t
  | .data _ => ⟨none⟩

def messageOfText (t : Text) : Message := ⟨[.ofText t]⟩

/-- The response that an event is sent in. `history` is that of the request's
task: the message of the user, after those of earlier turns. -/
def wire (history : List Message) : Event → StreamResponse
  | .task state artifacts message _ =>
      .task
        { status := ⟨state, message.map messageOfText⟩
          artifacts := artifacts.map fun t => ⟨[.ofText t]⟩
          -- the task of an error has the error for its history
          history :=
            match artifacts, message with
            | [], some m => [messageOfText m]
            | _, _ => history }
  | .artifact u => .artifactUpdate ⟨[partPayload u.part]⟩
  | .status state _ => .statusUpdate ⟨state, none⟩

variable {history : List Message}

/-- The text that an event shows the client; `[]` stands for none. -/
def shown (history : List Message) (e : Event) : Text := (wire history e).extractText.getD []

/-- The snapshot that a stream begins with shows the user's message. -/
theorem shown_snapshot {m : Message} {text : Text} (hm : m.extractText = some text)
    (state : TaskState) (metadata : OutputMetadata) :
    shown (history ++ [m]) (.task state [] none metadata) = text := by
  show ((history ++ [m]).reverse.findSome? Message.extractText).getD [] = text
  rw [List.reverse_append, List.reverse_singleton, List.singleton_append, List.findSome?_cons, hm]
  rfl

/-- The updates among the events. -/
def updates (events : List Event) : List ArtifactUpdate := events.filterMap Event.update?

/-! ## §5  The round trip -/

/-- The part asks for a call of the peer. -/
structure Calls (part : Mapping) (url message : Json) : Prop where
  inputs : ∃ inputs : Mapping, (part.getMappingD "state").get? "input" = some (.obj inputs) ∧
    inputs.get? "url" = some url ∧ inputs.get? "message" = some message
  url : url.truthy = true
  message : message.truthy = true

/-- Where the request has a text, an answer that comes back begins with it. -/
theorem prefix_of_spells {answer text : Text} {m : Message} (hm : m.extractText = some text)
    {state : TaskState} {metadata : OutputMetadata} {events : List Event}
    (h : Spells answer [] ((Event.task state [] none metadata :: events).map
      (shown (history ++ [m])))) : text <+: answer := by
  rw [← foldl_takeIn_eq_iff, List.map_cons, List.foldl_cons, shown_snapshot hm] at h
  rw [← h]
  have hstart : takeIn [] text = text := by
    unfold takeIn
    by_cases htext : text = []
    · rw [if_pos htext, htext]
    · rw [if_neg htext]
      rfl
  rw [hstart]
  exact prefix_foldl_takeIn text _

/-! The streams of the examples: an answer in two chunks, "ab" and "b". -/

end OpencodeA2a.Execution
