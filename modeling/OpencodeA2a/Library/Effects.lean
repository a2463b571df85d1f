import Mathlib.Data.List.Basic
import Mathlib.Logic.Basic

/-!
# Programs that await calls

A program as its environment sees it: it awaits one call after the other, each of which
returns a value or raises, and in the end it returns or raises itself. A *monitor* watches
the calls and keeps a state of its own. A program *meets* a postcondition under a monitor
when each call is allowed where the program makes it, whatever the calls before it have
brought; then so it is in every run (`Meets.play`), and also in a run that is cut short,
since what a monitor accepts it accepts from the beginning on. There is one rule for each
way of putting programs together, and it is an equivalence, so that a program is checked
along its text.
-/

namespace OpencodeA2a.Effects

/-! ## §1  Programs -/

/-- `A e` is what the call `e` returns, `ε` what calls and programs raise. -/
inductive Prog (E : Type) (A : E → Type) (ε α : Type) : Type where
  | returns (a : α)
  | raises (x : ε)
  | await (e : E) (k : Except ε (A e) → Prog E A ε α)

variable {E : Type} {A : E → Type} {ε α β : Type}

namespace Prog

def ofExcept : Except ε α → Prog E A ε α
  | .ok a => .returns a
  | .error x => .raises x

/-- One call. -/
def call (e : E) : Prog E A ε (A e) := .await e ofExcept

/-- One call whose outcome does not matter. -/
def tell (e : E) : Prog E A ε Unit := .await e fun _ => .returns ()

def bind : Prog E A ε α → (α → Prog E A ε β) → Prog E A ε β
  | .returns a, f => f a
  | .raises x, _ => .raises x
  | .await e k, f => .await e fun r => (k r).bind f

/-- The program that returns how the given one ends. -/
def ending : Prog E A ε α → Prog E A ε (Except ε α)
  | .returns a => .returns (.ok a)
  | .raises x => .returns (.error x)
  | .await e k => .await e fun r => (k r).ending

/-- `try: … except …`, where the handler raises again what it does not handle. -/
def tryCatch (p : Prog E A ε α) (h : ε → Prog E A ε α) : Prog E A ε α :=
  p.ending.bind fun
    | .ok a => .returns a
    | .error x => h x

/-- `try: … finally: …`, where what the last clause raises stands in place of the outcome. -/
def andFinally (p : Prog E A ε α) (last : Prog E A ε Unit) : Prog E A ε α :=
  p.ending.bind fun r => last.bind fun _ => ofExcept r

instance : Monad (Prog E A ε) where
  pure := returns
  bind := bind

end Prog

/-! ## §2  Runs -/

/-- A call and its outcome. -/
abbrev Event (E : Type) (A : E → Type) (ε : Type) : Type := (e : E) × Except ε (A e)

/-- What answers the calls may depend on all that has happened. -/
abbrev Environment (E : Type) (A : E → Type) (ε : Type) : Type :=
  List (Event E A ε) → (e : E) → Except ε (A e)

/-- The events of a run after those of `past`, and how it ends. -/
def Prog.play (env : Environment E A ε) :
    Prog E A ε α → List (Event E A ε) → List (Event E A ε) × Except ε α
  | .returns a, _ => ([], .ok a)
  | .raises x, _ => ([], .error x)
  | .await e k, past =>
      let r := env past e
      let rest := (k r).play env (past ++ [⟨e, r⟩])
      (⟨e, r⟩ :: rest.1, rest.2)

/-- The events of a run from the start. -/
def Prog.events (env : Environment E A ε) (p : Prog E A ε α) : List (Event E A ε) :=
  (p.play env []).1

def Prog.outcome (env : Environment E A ε) (p : Prog E A ε α) : Except ε α := (p.play env []).2

/-! ## §3  Monitors -/

structure Monitor (E : Type) (A : E → Type) (ε σ : Type) where
  allows : σ → E → Prop
  next : σ → (e : E) → Except ε (A e) → σ

variable {σ : Type}

namespace Monitor

variable (M : Monitor E A ε σ)

/-- Each call is allowed where it is made. -/
def Accepts : σ → List (Event E A ε) → Prop
  | _, [] => True
  | s, ⟨e, r⟩ :: es => M.allows s e ∧ Accepts (M.next s e r) es

def after : σ → List (Event E A ε) → σ
  | s, [] => s
  | s, ⟨e, r⟩ :: es => after (M.next s e r) es

theorem after_append (s : σ) (es es' : List (Event E A ε)) :
    M.after s (es ++ es') = M.after (M.after s es) es' := by
  induction es generalizing s with
  | nil => rfl
  | cons x es ih => exact ih (M.next s x.1 x.2)

theorem accepts_append (s : σ) (es es' : List (Event E A ε)) :
    M.Accepts s (es ++ es') ↔ M.Accepts s es ∧ M.Accepts (M.after s es) es' := by
  induction es generalizing s with
  | nil => exact (and_iff_right trivial).symm
  | cons x es ih =>
      show M.allows s x.1 ∧ M.Accepts (M.next s x.1 x.2) (es ++ es') ↔ _
      rw [ih, ← and_assoc]
      rfl

/-- The monitor that asks the same of every call. -/
def always (P : E → Prop) : Monitor E A ε Unit where
  allows := fun _ => P
  next := fun s _ _ => s

theorem accepts_always {P : E → Prop} {es : List (Event E A ε)} :
    (always P).Accepts () es ↔ ∀ x ∈ es, P x.1 := by
  induction es with
  | nil => simp [Accepts]
  | cons x es ih =>
      rw [List.forall_mem_cons, ← ih]
      rfl

end Monitor

/-! ## §4  Meeting a postcondition -/

def Meets (M : Monitor E A ε σ) (Q : Except ε α → σ → Prop) : Prog E A ε α → σ → Prop
  | .returns a, s => Q (.ok a) s
  | .raises x, s => Q (.error x) s
  | .await e k, s => M.allows s e ∧ ∀ r, Meets M Q (k r) (M.next s e r)

variable {M : Monitor E A ε σ} {Q Q' : Except ε α → σ → Prop} {s : σ}

@[simp] theorem meets_returns {a : α} : Meets M Q (.returns a) s ↔ Q (.ok a) s := Iff.rfl

@[simp] theorem meets_pure {a : α} : Meets M Q (pure a) s ↔ Q (.ok a) s := Iff.rfl

@[simp] theorem meets_raises {x : ε} : Meets M Q (.raises x) s ↔ Q (.error x) s := Iff.rfl

@[simp] theorem meets_ofExcept {r : Except ε α} : Meets M Q (.ofExcept r) s ↔ Q r s := by
  cases r <;> rfl

@[simp] theorem meets_call {e : E} {Q : Except ε (A e) → σ → Prop} :
    Meets M Q (.call e) s ↔ M.allows s e ∧ ∀ r, Q r (M.next s e r) :=
  and_congr_right fun _ => forall_congr' fun _ => meets_ofExcept

@[simp] theorem meets_tell {e : E} {Q : Except ε Unit → σ → Prop} :
    Meets M Q (.tell e) s ↔ M.allows s e ∧ ∀ r, Q (.ok ()) (M.next s e r) := Iff.rfl

theorem Meets.mono {p : Prog E A ε α} (h : Meets M Q p s) (hQ : ∀ r t, Q r t → Q' r t) :
    Meets M Q' p s := by
  induction p generalizing s with
  | returns a => exact hQ _ _ h
  | raises x => exact hQ _ _ h
  | await e k ih => exact ⟨h.1, fun r => ih r (h.2 r)⟩

theorem meets_congr {p : Prog E A ε α} (hQ : ∀ r t, Q r t ↔ Q' r t) :
    Meets M Q p s ↔ Meets M Q' p s :=
  ⟨fun h => h.mono fun r t => (hQ r t).mp, fun h => h.mono fun r t => (hQ r t).mpr⟩

/-- The rule of sequence: a program that raises ends there. -/
@[simp] theorem meets_bind {p : Prog E A ε α} {f : α → Prog E A ε β}
    {Q : Except ε β → σ → Prop} :
    Meets M Q (p >>= f) s ↔
      Meets M (fun r t =>
        match r with
        | .ok a => Meets M Q (f a) t
        | .error x => Q (.error x) t) p s := by
  show Meets M Q (p.bind f) s ↔ _
  induction p generalizing s with
  | returns a => rfl
  | raises x => rfl
  | await e k ih => exact and_congr_right fun _ => forall_congr' fun r => ih r

@[simp] theorem meets_ending {p : Prog E A ε α} {Q : Except ε (Except ε α) → σ → Prop} :
    Meets M Q p.ending s ↔ Meets M (fun r t => Q (.ok r) t) p s := by
  induction p generalizing s with
  | returns a => rfl
  | raises x => rfl
  | await e k ih => exact and_congr_right fun _ => forall_congr' fun r => ih r

@[simp] theorem meets_tryCatch {p : Prog E A ε α} {h : ε → Prog E A ε α} :
    Meets M Q (p.tryCatch h) s ↔
      Meets M (fun r t =>
        match r with
        | .ok a => Q (.ok a) t
        | .error x => Meets M Q (h x) t) p s := by
  refine (meets_bind (p := p.ending)).trans (meets_ending.trans (meets_congr ?_))
  rintro (x | a) t <;> rfl

@[simp] theorem meets_andFinally {p : Prog E A ε α} {last : Prog E A ε Unit} :
    Meets M Q (p.andFinally last) s ↔
      Meets M (fun r => Meets M (fun r' t =>
        match r' with
        | .ok _ => Q r t
        | .error x => Q (.error x) t) last) p s := by
  refine (meets_bind (p := p.ending)).trans (meets_ending.trans (meets_congr ?_))
  intro r t
  refine (meets_bind (p := last)).trans (meets_congr ?_)
  rintro (x | a) t'
  · rfl
  · exact meets_ofExcept

/-- What a program meets holds in each of its runs. -/
theorem Meets.play {p : Prog E A ε α} (h : Meets M Q p s) (env : Environment E A ε)
    (past : List (Event E A ε)) :
    M.Accepts s (p.play env past).1 ∧
      Q (p.play env past).2 (M.after s (p.play env past).1) := by
  induction p generalizing s past with
  | returns a => exact ⟨trivial, h⟩
  | raises x => exact ⟨trivial, h⟩
  | await e k ih =>
      obtain ⟨hallows, hrest⟩ := h
      obtain ⟨haccepts, hQ⟩ := ih (env past e) (hrest _) (past ++ [⟨e, env past e⟩])
      exact ⟨⟨hallows, haccepts⟩, hQ⟩

/-! ## §5  Programs of one call -/

/-- The program awaits nothing. -/
def Prog.Settled (p : Prog E A ε α) : Prop := ∃ r, p = .ofExcept r

/-- The program makes the one call, and then it awaits nothing more. -/
def Prog.AsksOnce (p : Prog E A ε α) (e : E) : Prop := ∃ k, p = .await e k ∧ ∀ r, (k r).Settled

theorem Prog.settled_returns (a : α) : (Prog.returns a : Prog E A ε α).Settled := ⟨.ok a, rfl⟩

theorem Prog.settled_raises (x : ε) : (Prog.raises x : Prog E A ε α).Settled := ⟨.error x, rfl⟩

theorem Prog.Settled.bind {p : Prog E A ε α} {f : α → Prog E A ε β} (hp : p.Settled)
    (hf : ∀ a, (f a).Settled) : (p >>= f).Settled := by
  obtain ⟨r, rfl⟩ := hp
  cases r with
  | ok a => exact hf a
  | error x => exact settled_raises x

theorem Prog.asksOnce_call (e : E) : (Prog.call e : Prog E A ε (A e)).AsksOnce e :=
  ⟨ofExcept, rfl, fun r => ⟨r, rfl⟩⟩

theorem Prog.AsksOnce.bind {p : Prog E A ε α} {f : α → Prog E A ε β} {e : E} (hp : p.AsksOnce e)
    (hf : ∀ a, (f a).Settled) : (p >>= f).AsksOnce e := by
  obtain ⟨k, rfl, hk⟩ := hp
  exact ⟨fun r => k r >>= f, rfl, fun r => (hk r).bind hf⟩

/-- Such a program ends as the answer to its call has it. -/
theorem Prog.AsksOnce.meets {p : Prog E A ε α} {e : E} (hp : p.AsksOnce e)
    (answer : Except ε (A e) → Environment E A ε) (hanswer : ∀ r past, answer r past e = r) :
    Meets M Q p s ↔ M.allows s e ∧ ∀ r, Q (p.outcome (answer r)) (M.next s e r) := by
  obtain ⟨k, rfl, hk⟩ := hp
  refine and_congr_right fun _ => forall_congr' fun r => ?_
  obtain ⟨r', hr'⟩ := hk r
  have houtcome : (Prog.await e k).outcome (answer r) = r' := by
    show ((k (answer r [] e)).play (answer r) _).2 = r'
    rw [hanswer, hr']
    cases r' <;> rfl
  rw [hr', houtcome]
  exact meets_ofExcept

/-! ## §6  What happens at some time

The state of this monitor is the statement that it has happened.
-/

def Monitor.ever (P : Event E A ε → Prop) : Monitor E A ε Prop where
  allows := fun _ _ => True
  next := fun s e r => s ∨ P ⟨e, r⟩

theorem Monitor.after_ever {P : Event E A ε → Prop} {s : Prop} {es : List (Event E A ε)} :
    (Monitor.ever P).after s es ↔ s ∨ ∃ x ∈ es, P x := by
  induction es generalizing s with
  | nil => simp [after]
  | cons x es ih =>
      refine ih.trans ?_
      rw [List.exists_mem_cons_iff, ← or_assoc]
      rfl

/-- What has happened stays so. -/
theorem meets_ever_of_true {P : Event E A ε → Prop} (p : Prog E A ε α) {s : Prop} (h : s) :
    Meets (Monitor.ever P) (fun _ t => t) p s := by
  induction p generalizing s with
  | returns a => exact h
  | raises x => exact h
  | await e k ih => exact ⟨trivial, fun r => ih r (.inl h)⟩

/-- In every run there is an event with the property. -/
def Happens (P : Event E A ε → Prop) (p : Prog E A ε α) : Prop :=
  Meets (Monitor.ever P) (fun _ t => t) p False

section Happens

variable {P : Event E A ε → Prop} {p : Prog E A ε α}

theorem happens_await {e : E} {k : Except ε (A e) → Prog E A ε α}
    (h : ∀ r, P ⟨e, r⟩ ∨ Happens P (k r)) : Happens P (.await e k) := by
  refine ⟨trivial, fun r => ?_⟩
  rcases h r with hP | hrest
  · exact meets_ever_of_true _ (.inr hP)
  · by_cases hP : P ⟨e, r⟩
    · exact meets_ever_of_true _ (.inr hP)
    · have hnext : (Monitor.ever P).next False e r = False := propext ⟨by rintro (h | h) <;> tauto, False.elim⟩
      rw [hnext]
      exact hrest

/-- What has happened in a program has happened whatever follows. -/
theorem Happens.bind {f : α → Prog E A ε β} (h : Happens P p) : Happens P (p >>= f) := by
  refine meets_bind.mpr (Meets.mono h ?_)
  rintro (x | a) t ht
  · exact ht
  · exact meets_ever_of_true _ ht

theorem Happens.ending (h : Happens P p) : Happens P p.ending := meets_ending.mpr h

theorem Happens.tryCatch {handler : ε → Prog E A ε α} (h : Happens P p) :
    Happens P (p.tryCatch handler) := by
  refine meets_tryCatch.mpr (Meets.mono h ?_)
  rintro (x | a) t ht
  · exact meets_ever_of_true _ ht
  · exact ht

theorem Happens.exists_event (h : Happens P p) (env : Environment E A ε) :
    ∃ x ∈ p.events env, P x :=
  (Monitor.after_ever.mp (h.play env []).2).resolve_left id

end Happens

/-! ## §7  What every call meets -/

/-- Each call that the program may make meets `P`. -/
def Calls (P : E → Prop) (p : Prog E A ε α) : Prop :=
  Meets (Monitor.always P) (fun _ _ => True) p ()

section Calls

variable {P P' : E → Prop} {p : Prog E A ε α} {f : α → Prog E A ε β}

@[simp] theorem calls_returns {a : α} : Calls P (.returns a : Prog E A ε α) := trivial

@[simp] theorem calls_pure {a : α} : Calls P (pure a : Prog E A ε α) := trivial

@[simp] theorem calls_raises {x : ε} : Calls P (.raises x : Prog E A ε α) := trivial

@[simp] theorem calls_ofExcept {r : Except ε α} : Calls P (.ofExcept r : Prog E A ε α) :=
  meets_ofExcept.mpr trivial

@[simp] theorem calls_call {e : E} : Calls P (.call e : Prog E A ε (A e)) ↔ P e :=
  meets_call.trans (and_iff_left fun _ => trivial)

@[simp] theorem calls_tell {e : E} : Calls P (.tell e : Prog E A ε Unit) ↔ P e :=
  meets_tell.trans (and_iff_left fun _ => trivial)

theorem Calls.bind (hp : Calls P p) (hf : ∀ a, Calls P (f a)) : Calls P (p >>= f) := by
  refine meets_bind.mpr (hp.mono ?_)
  rintro (x | a) ⟨⟩ -
  · trivial
  · exact hf a

theorem Calls.ending (hp : Calls P p) : Calls P p.ending := meets_ending.mpr hp

theorem Calls.tryCatch {h : ε → Prog E A ε α} (hp : Calls P p) (hh : ∀ x, Calls P (h x)) :
    Calls P (p.tryCatch h) := by
  refine meets_tryCatch.mpr (hp.mono ?_)
  rintro (x | a) ⟨⟩ -
  · exact hh x
  · trivial

theorem Calls.andFinally {last : Prog E A ε Unit} (hp : Calls P p) (hlast : Calls P last) :
    Calls P (p.andFinally last) := by
  refine meets_andFinally.mpr (hp.mono ?_)
  rintro r ⟨⟩ -
  refine hlast.mono ?_
  rintro (x | a) ⟨⟩ - <;> trivial

theorem Calls.mono (hp : Calls P p) (h : ∀ e, P e → P' e) : Calls P' p := by
  induction p with
  | returns a => trivial
  | raises x => trivial
  | await e k ih => exact ⟨h e hp.1, fun r => ih r (hp.2 r)⟩

/-- Each call of a run meets what every call of the program meets. -/
theorem Calls.events (hp : Calls P p) (env : Environment E A ε) :
    (p.events env).Forall fun x => P x.1 :=
  List.forall_iff_forall_mem.mpr (Monitor.accepts_always.mp (hp.play env []).1)

theorem calls_true (p : Prog E A ε α) : Calls (fun _ => True) p := by
  induction p with
  | returns a => trivial
  | raises x => trivial
  | await e k ih => exact ⟨trivial, ih⟩

end Calls

/-! ## §8  What comes last

The state of this monitor is the call that was to be the last one, once it has been made.
-/

def Monitor.closing (f : E → Bool) : Monitor E A ε (Option E) where
  allows := fun s _ => s = none
  next := fun _ e _ => if f e then some e else none

/-- A call that is to be the last one is the last one. -/
theorem Monitor.map_eq_of_closing {f : E → Bool} {es : List (Event E A ε)}
    (h : (Monitor.closing f).Accepts none es) :
    ∃ calls : List E, (∀ e ∈ calls, f e = false) ∧
      es.map (fun x => x.1) = calls ++ ((Monitor.closing f).after none es).toList := by
  induction es with
  | nil => exact ⟨[], by simp, rfl⟩
  | cons x es ih =>
      obtain ⟨-, hrest⟩ := h
      cases hf : f x.1 with
      | true =>
          have hnext : (Monitor.closing f).next none x.1 x.2 = some x.1 := if_pos hf
          rw [hnext] at hrest
          cases es with
          | nil => exact ⟨[], by simp, by simp [Monitor.after, hnext]⟩
          | cons y es => cases hrest.1
      | false =>
          have hnext : (Monitor.closing f).next none x.1 x.2 = none :=
            if_neg (Bool.eq_false_iff.mp hf)
          rw [hnext] at hrest
          obtain ⟨calls, hcalls, hmap⟩ := ih hrest
          refine ⟨x.1 :: calls, List.forall_mem_cons.mpr ⟨hf, hcalls⟩, ?_⟩
          show x.1 :: es.map _ = x.1 :: (calls ++ _)
          rw [hmap]
          show _ = x.1 :: (calls ++ ((Monitor.closing f).after (Monitor.next _ none x.1 x.2) es).toList)
          rw [hnext]

/-- Without a call that is to be the last one, the monitor stays where it is. -/
theorem meets_closing {f : E → Bool} {p : Prog E A ε α} {Q : Except ε α → Option E → Prop}
    (hp : Calls (fun e => f e = false) p) (hQ : ∀ r, Q r none) :
    Meets (Monitor.closing f) Q p none := by
  induction p with
  | returns a => exact hQ _
  | raises x => exact hQ _
  | await e k ih =>
      refine ⟨rfl, fun r => ?_⟩
      have hnext : (Monitor.closing f).next none e r = none := if_neg (Bool.eq_false_iff.mp hp.1)
      rw [hnext]
      exact ih r (hp.2 r)

/-! ## §9  What is returned -/

/-- What the program returns, if it returns, meets `P`. -/
def Yields (P : α → Prop) (p : Prog E A ε α) : Prop :=
  Meets (Monitor.always fun _ => True) (fun r _ => ∀ a, r = .ok a → P a) p ()

section Yields

variable {P : α → Prop} {p : Prog E A ε α}

theorem yields_returns {a : α} : Yields P (.returns a : Prog E A ε α) ↔ P a :=
  ⟨fun h => h a rfl, by rintro h _ ⟨⟩; exact h⟩

theorem yields_raises (x : ε) : Yields P (.raises x : Prog E A ε α) := by
  rintro _ ⟨⟩

theorem Yields.seq {q : Prog E A ε β} {R : β → Prop} {f : β → Prog E A ε α} (hq : Yields R q)
    (hf : ∀ b, R b → Yields P (f b)) : Yields P (q >>= f) := by
  refine meets_bind.mpr (Meets.mono hq ?_)
  rintro (x | b) ⟨⟩ hb
  · rintro _ ⟨⟩
  · exact hf b (hb b rfl)

/-- What the first program returns may be anything. -/
theorem Yields.bind {q : Prog E A ε β} {f : β → Prog E A ε α} (hf : ∀ b, Yields P (f b)) :
    Yields P (q >>= f) :=
  Yields.seq (R := fun _ => True) (Meets.mono (calls_true q) fun _ _ _ _ _ => trivial)
    fun b _ => hf b

theorem Yields.ending (hp : Yields P p) : Yields (fun r => ∀ a, r = .ok a → P a) p.ending := by
  refine meets_ending.mpr (Meets.mono hp ?_)
  rintro r ⟨⟩ hr r' ⟨⟩
  exact hr

theorem Yields.tryCatch {h : ε → Prog E A ε α} (hp : Yields P p) (hh : ∀ x, Yields P (h x)) :
    Yields P (p.tryCatch h) := by
  refine meets_tryCatch.mpr (Meets.mono hp ?_)
  rintro (x | a) ⟨⟩ hr
  · exact hh x
  · exact hr

theorem Yields.andFinally {last : Prog E A ε Unit} (hp : Yields P p) :
    Yields P (p.andFinally last) := by
  refine meets_andFinally.mpr (Meets.mono hp ?_)
  rintro r ⟨⟩ hr
  refine Meets.mono (calls_true last) ?_
  rintro (x | u) ⟨⟩ -
  · rintro _ ⟨⟩
  · exact hr

/-- What a program yields may be added to what it meets. -/
theorem Meets.and_yields {Q : Except ε α → σ → Prop} (h : Meets M Q p s) (hp : Yields P p) :
    Meets M (fun r t => Q r t ∧ ∀ a, r = .ok a → P a) p s := by
  induction p generalizing s with
  | returns a => exact ⟨h, hp⟩
  | raises x => exact ⟨h, hp⟩
  | await e k ih => exact ⟨h.1, fun r => ih r (h.2 r) (hp.2 r)⟩

theorem Yields.outcome (h : Yields P p) (env : Environment E A ε) {a : α}
    (ha : p.outcome env = .ok a) : P a :=
  (h.play env []).2 a ha

end Yields

/-! ## §10  What has happened so far -/

section Collect

variable {γ : Type} {f : Event E A ε → Option γ}

/-- The state of this monitor is the list of what `f` makes of the events so far. -/
def Monitor.collect (f : Event E A ε → Option γ) : Monitor E A ε (List γ) where
  allows := fun _ _ => True
  next := fun s e r => s ++ (f ⟨e, r⟩).toList

theorem Monitor.after_collect {s : List γ} {es : List (Event E A ε)} :
    (Monitor.collect f).after s es = s ++ es.filterMap f := by
  induction es generalizing s with
  | nil => exact (List.append_nil s).symm
  | cons x es ih =>
      refine ih.trans ?_
      show s ++ (f x).toList ++ _ = _
      rw [List.append_assoc, List.filterMap_cons]
      cases f x <;> rfl

/-- How a program ends is what holds of what has been collected. -/
theorem Meets.collected {Q : Except ε α → List γ → Prop} {p : Prog E A ε α}
    (h : Meets (Monitor.collect f) Q p []) (env : Environment E A ε) :
    Q (p.outcome env) ((p.events env).filterMap f) := by
  have hended := (h.play env []).2
  rwa [Monitor.after_collect] at hended

/-- Where nothing is collected from a call, the list is what it was. -/
theorem meets_collect_of_calls {p : Prog E A ε α} {s : List γ} {Q : Except ε α → List γ → Prop}
    (hp : Calls (fun e => ∀ r, f ⟨e, r⟩ = none) p) (hQ : ∀ r, Q r s) :
    Meets (Monitor.collect f) Q p s := by
  induction p with
  | returns a => exact hQ _
  | raises x => exact hQ _
  | await e k ih =>
      refine ⟨trivial, fun r => ?_⟩
      have hnext : (Monitor.collect f).next s e r = s := by
        show s ++ (f ⟨e, r⟩).toList = s
        rw [hp.1 r]
        exact List.append_nil s
      rw [hnext]
      exact ih r (hp.2 r)

end Collect

/-- The state of this monitor is the list of the events so far. -/
def Monitor.record : Monitor E A ε (List (Event E A ε)) := Monitor.collect some

theorem Monitor.after_record {s es : List (Event E A ε)} :
    (Monitor.record : Monitor E A ε _).after s es = s ++ es :=
  Monitor.after_collect.trans (by rw [List.filterMap_some])

theorem meets_record_true (p : Prog E A ε α) {s : List (Event E A ε)} :
    Meets Monitor.record (fun _ _ => True) p s := by
  induction p generalizing s with
  | returns a => trivial
  | raises x => trivial
  | await e k ih => exact ⟨trivial, fun r => ih r⟩

/-- How a program ends is what holds of its events. -/
theorem Meets.outcome {Q : Except ε α → List (Event E A ε) → Prop} {p : Prog E A ε α}
    (h : Meets Monitor.record Q p []) (env : Environment E A ε) :
    Q (p.outcome env) (p.events env) := by
  have hended := (h.play env []).2
  rwa [Monitor.after_record] at hended

end OpencodeA2a.Effects
