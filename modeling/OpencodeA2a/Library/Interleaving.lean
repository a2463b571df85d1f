import OpencodeA2a.Library.Effects

/-!
# Programs that run side by side

Of several programs each awaits the answer to a call, and one after the other is answered, in
any order. A *thread* is a program on its way: the events so far and what is left of it. What
a program meets under a monitor it meets on its way too (`Meets.leads`), and what the monitor
has collected so far is the beginning of what it will have collected (`Meets.begins`).
-/

namespace OpencodeA2a.Effects

variable {E : Type} {A : E → Type} {ε α σ : Type}

/-- The events lead from the one program to the other. -/
inductive Prog.Leads (p : Prog E A ε α) : List (Event E A ε) → Prog E A ε α → Prop
  | refl : Leads p [] p
  | snoc {es : List (Event E A ε)} {e : E} {k : Except ε (A e) → Prog E A ε α}
      (h : Leads p es (.await e k)) (r : Except ε (A e)) : Leads p (es ++ [⟨e, r⟩]) (k r)

theorem Meets.leads {M : Monitor E A ε σ} {Q : Except ε α → σ → Prop} {p q : Prog E A ε α} {s : σ}
    {es : List (Event E A ε)} (h : Meets M Q p s) (hleads : p.Leads es q) :
    M.Accepts s es ∧ Meets M Q q (M.after s es) := by
  -- the calls so far are steps of the monitor, the newest last
  induction hleads with
  | refl => exact ⟨trivial, h⟩
  | snoc hleads r ih =>
      obtain ⟨haccepts, hallows, hrest⟩ := ih
      rw [M.accepts_append, M.after_append]
      exact ⟨⟨haccepts, hallows, trivial⟩, hrest r⟩

/-- However the thread goes on, what it has collected so far stays in front. -/
theorem Meets.begins {γ : Type} {f : Event E A ε → Option γ} {Q : Except ε α → List γ → Prop}
    {p q : Prog E A ε α} {es : List (Event E A ε)} (h : Meets (Monitor.collect f) Q p [])
    (hleads : p.Leads es q) (env : Environment E A ε) :
    ∃ r rest, Q r (es.filterMap f ++ rest) := by
  have hrest := (h.leads hleads).2
  rw [Monitor.after_collect, List.nil_append] at hrest
  have hended := (hrest.play env es).2
  rw [Monitor.after_collect] at hended
  exact ⟨_, _, hended⟩

/-- A program on its way. -/
structure Thread (p : Prog E A ε α) where
  past : List (Event E A ε)
  rest : Prog E A ε α
  leads : p.Leads past rest

namespace Thread

variable {p : Prog E A ε α}

def start (p : Prog E A ε α) : Thread p := ⟨[], p, .refl⟩

/-- The call that the thread awaits. -/
def pending (t : Thread p) : Option E :=
  match t.rest with
  | .await e _ => some e
  | _ => none

/-- The thread after its call is answered, if it awaits one. -/
def answer (t : Thread p) (reply : (e : E) → Except ε (A e)) : Thread p :=
  match t with
  | ⟨past, .await e k, leads⟩ => ⟨past ++ [⟨e, reply e⟩], k (reply e), leads.snoc (reply e)⟩
  | ⟨past, .returns a, leads⟩ => ⟨past, .returns a, leads⟩
  | ⟨past, .raises x, leads⟩ => ⟨past, .raises x, leads⟩

theorem past_answer {t : Thread p} {e : E} (h : t.pending = some e)
    (reply : (e : E) → Except ε (A e)) : (t.answer reply).past = t.past ++ [⟨e, reply e⟩] := by
  obtain ⟨past, rest, leads⟩ := t
  cases rest with
  | returns a => cases h
  | raises x => cases h
  | await e' k =>
      cases h
      rfl

end Thread

end OpencodeA2a.Effects
