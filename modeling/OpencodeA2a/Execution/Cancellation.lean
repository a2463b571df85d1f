import OpencodeA2a.Execution.Closing

/-!
# Cancellation is final, if nothing comes in between

`executor.cancel` enqueues the canceled status first. Then it reads the
registries, takes the session out of the cache, asks the upstream to abort, and
only then cancels the run. Up to that moment the run goes on as if nothing had
happened; from that moment on it shows nothing and closes nothing.
-/

namespace OpencodeA2a.Execution

open OpencodeA2a.Stream

/-! ## §1  What may follow the canceled status -/

/-- The canceled status, as `cancel` enqueues it. -/
def canceled : Author × Event → Bool
  | (.cancel, .status .canceled _) => true
  | _ => false

/-- The run neither closes the task nor shows anything. -/
def Harmless (x : Author × Event) : Prop :=
  x.1 = .run → closing x.2 = false ∧ ∀ u, x.2 ≠ .artifact u

/-- After the canceled status the run enqueues nothing that closes the task, and
no artifact update. -/
def Final (r : Run) : Prop := r.queue.Pairwise fun x y => canceled x = true → Harmless y

variable {r r' : Run} {c : Consumer} {act : RunAction}

def Run.published (r : Run) : Bool := r.queue.any canceled

theorem Final.put (h : Final r) {author : Author} {e : Event}
    (he : r.published = true → Harmless (author, e)) : Final (r.put author e) := by
  refine List.pairwise_append.mpr ⟨h, List.pairwise_singleton _ _, ?_⟩
  intro x hx y hy hcanceled
  obtain rfl := List.mem_singleton.mp hy
  exact he (List.any_eq_true.mpr ⟨x, hx, hcanceled⟩)

theorem published_append {x : Author × Event} (hq : r'.queue = r.queue ++ [x])
    (hx : canceled x = false) : r'.published = r.published := by
  unfold Run.published
  rw [hq, List.any_append, List.any_cons, List.any_nil, hx, Bool.or_false, Bool.or_false]

/-! ## §2  The condition -/

/-- The consumer has nothing at hand that shows an artifact. -/
def Consumer.clean (c : Consumer) : Bool :=
  c.cancelled || (c.stage.acts.all fun act => !act.isChunk) &&
    (c.stage.ops.all fun op => !op.isPart) && c.stage.inFlight.all fun e => !e.isArtifact

namespace Run

variable (r : Run)

def clean : Bool := r.consumer.all Consumer.clean

/-- The coordinator is not enqueuing the events it ends with, or will not. -/
def settled : Bool :=
  match r.stage with
  | .emitting _ _ => r.cancelRequested
  | _ => true

/-- The canceled status is out, the run not yet cancelled. -/
def exposed : Bool := r.published && !r.hit

/-- The answers that bring a run to its end. -/
def concludes : Stage → Answer → Bool
  | .emitting _ _, _ | .awaitingSignal _, _ | .tools _, .toolResults false => true
  | .binding, .failed _ | .locking, .failed _ | .sending, .failed _ | .finalizing _, .failed _
  | .tools _, .failed _ => true
  | _, _ => false

/-- From the canceled status to `running_task.cancel()`, the run is not brought
to its end and no part event reaches its stream before the stop event; when the
status is enqueued, neither task is at an event that shows or closes anything. -/
def quiet : RunAction → Bool
  | .step a => !r.exposed || r.cancelRequested && r.awaits || !concludes r.stage a
  | .deliver event => !r.exposed || r.stop || (eventOps r.config event).all fun op => !op.isPart
  | .cancelStep _ =>
      match r.cancelling with
      | .publishing => r.clean && r.settled
      | _ => true
  | _ => true

/-- Past the end of the run's body. -/
def late : Bool :=
  match r.stage with
  | .releasing | .stopping | .checking | .unregistering | .ended => true
  | _ => false

end Run

/-! ## §3  The consumer -/

/-- A clean consumer that is not cancelled. -/
theorem Consumer.clean_iff (hc : c.cancelled = false) : c.clean = true ↔
    (∀ a ∈ c.stage.acts, a.isChunk = false) ∧ (∀ op ∈ c.stage.ops, op.isPart = false) ∧
      ∀ e, c.stage.inFlight = some e → e.isArtifact = false := by
  unfold Consumer.clean
  rw [hc, Bool.false_or, Bool.and_eq_true, Bool.and_eq_true, List.all_eq_true, List.all_eq_true,
    Option.all_eq_true_iff_get, and_assoc]
  simp only [Bool.not_eq_true']
  refine and_congr_right fun _ => and_congr_right fun _ => ?_
  constructor
  · intro h e he
    have := h (by rw [he]; rfl)
    simpa only [he, Option.get_some] using this
  · intro h he
    exact h _ (Option.some_get he).symm

/-- A clean consumer stays clean, unless an event brings it a part. -/
theorem Run.Consumes.clean (h : r.Consumes c act r') (hc : r.consumer = some c)
    (hclean : r.clean = true)
    (hdeliver : ∀ event, act = .deliver event → r.stop = false →
      ∀ op ∈ eventOps r.config event, op.isPart = false) : r'.clean = true := by
  unfold Run.clean at hclean ⊢
  obtain ⟨stage, hc'⟩ := h.consumer
  rw [hc, Option.all_some] at hclean
  rw [hc', Option.all_some]
  by_cases hcan : c.cancelled = true
  · unfold Consumer.clean
    rw [hcan, Bool.true_or]
  · rw [Bool.not_eq_true] at hcan
    obtain ⟨hacts, hops, hflight⟩ := (Consumer.clean_iff hcan).mp hclean
    refine (Consumer.clean_iff (c := ⟨stage, c.cancelled⟩) hcan).mpr ⟨?_, ?_, ?_⟩
    · cases h with
      | op op ops hcn hs hop =>
          cases hc'
          intro a ha
          exact isChunk_of_mem_perform _ (hops op (by rw [hs]; exact List.mem_cons_self ..)) ha
      | act a acts ops st hcn hs hst hput =>
          rw [hs] at hacts
          rcases hst with rfl | rfl <;> cases hc' <;>
            exact fun b hb => hacts b (List.mem_cons_of_mem _ hb)
      | enqueue a acts ops e hcn hs hput =>
          rw [hs] at hacts
          cases hc'
          exact fun b hb => hacts b (List.mem_cons_of_mem _ hb)
      | put e acts ops hcn hs | tracked acts ops hcn hs =>
          rw [hs] at hacts
          cases hc'
          exact hacts
      | cancelled | streamOver | idle | deliver | signal | signalAgain =>
          cases hc'
          exact fun a ha => by cases ha
    · intro op hop
      rcases h.ops hc' with hsub | ⟨event, hact, hstop, hstage⟩
      · exact hops op (hsub op hop)
      · rw [hstage] at hop
        exact hdeliver event hact hstop op hop
    · intro e he
      obtain ⟨a, acts, ops, hs, hput⟩ := h.inFlight hc' he
      exact isArtifact_of_put _ hput (hacts a (by rw [hs]; exact List.mem_cons_self ..))

/-- What a clean consumer puts is harmless. -/
theorem Run.Consumes.final (h : r.Consumes c act r') (hc : r.consumer = some c)
    (hflight : FlightOpen r) (hclean : r.published = true → r.clean = true) (hfinal : Final r) :
    Final r' ∧ r'.published = r.published := by
  rcases h.queue with hq | ⟨e, hcan, he, hq⟩
  · unfold Final Run.published
    rw [hq]
    exact ⟨hfinal, rfl⟩
  · refine ⟨?_, published_append hq rfl⟩
    have hput : Final (r.put .run e) := hfinal.put fun hp => by
      have hcl := hclean hp
      unfold Run.clean at hcl
      rw [hc, Option.all_some] at hcl
      obtain ⟨-, -, hart⟩ := (Consumer.clean_iff hcan).mp hcl
      refine fun _ => ⟨hflight c e hc he, ?_⟩
      rintro u rfl
      cases hart _ he
    unfold Final at hput ⊢
    rw [hq]
    exact hput

theorem Run.Keeps.clean (h : r.Keeps r') (hclean : r.clean = true) : r'.clean = true := by
  unfold Run.clean at hclean ⊢
  cases hc' : r'.consumer with
  | none => rfl
  | some c' =>
      rw [Option.all_some]
      by_cases hcan' : c'.cancelled = true
      · unfold Consumer.clean
        rw [hcan', Bool.true_or]
      · rw [Bool.not_eq_true] at hcan'
        rw [Consumer.clean_iff hcan']
        rcases h.consumer c' hc' with hw | ⟨c, hc, hstage, hcan⟩
        · rw [hw]
          exact ⟨(fun a ha => by cases ha), (fun op hop => by cases hop),
            (fun e he => by cases he)⟩
        · rw [hc, Option.all_some] at hclean
          have hcanc : c.cancelled = false := by
            rw [← Bool.not_eq_true]
            intro hcon
            exact absurd (hcan hcon) (by rw [hcan']; decide)
          rw [hstage]
          exact (Consumer.clean_iff hcanc).mp hclean

/-! ## §4  The coordinator -/

/-- An answer that does not bring the run to its end does not lead to its last
events. -/
theorem Run.resume_settled {a : Answer} (h : r.resume a = some r')
    (ha : Run.concludes r.stage a = false) : r'.settled = true := by
  unfold Run.resume at h
  split at h <;> rename_i hs <;> try rw [hs] at ha
  case h_7 =>
      have hafter : ∀ r : Run, r.afterRecording.settled = true := by
        intro r
        unfold Run.afterRecording
        split <;> rfl
      simp only at h
      split at h <;> cases h <;> exact hafter _
  case h_9 =>
      cases h
      unfold Run.settled
      simp only
      split
      · rename_i heq
        split at heq <;> cases heq
      · rfl
  case h_16 | h_17 =>
      cases h
      unfold Run.stopConsumer
      split <;> rfl
  case h_18 =>
      split at h <;> cases h
      rfl
  all_goals first | (cases h; rfl) | cases ha | cases h

/-- Past the end of the run's body the coordinator stays there and puts nothing. -/
theorem Run.Resumes.late {stage : Stage} (h : r.Resumes stage r') (hs : r.stage = stage)
    (hlate : r.late = true) : r'.late = true ∧ r'.queue = r.queue := by
  unfold Run.late at hlate
  rw [hs] at hlate
  cases h with
  | release =>
      refine ⟨?_, (silent_stopConsumer r).queue⟩
      unfold Run.stopConsumer
      split <;> rfl
  | stop | check | unregister => exact ⟨rfl, rfl⟩
  | fail stage e hwhere =>
      rcases hwhere with rfl | rfl | rfl | ⟨response, rfl⟩ | ⟨response, rfl⟩ <;> cases hlate
  | register | bind | lock | acquireAtOnce | wait | acquire | record | snapshot | respond
  | finalize | turn | handle | signal | noSignal | emit | emitLast => cases hlate

theorem Run.late_stopConsumer (r : Run) : r.stopConsumer.late = true := by
  unfold Run.stopConsumer
  split <;> rfl

theorem Run.late_cleanup (r : Run) : r.cleanup.late = true := by
  unfold Run.cleanup
  split
  · rfl
  · exact Run.late_stopConsumer _

/-- A cancelled run comes past the end of its body. -/
theorem Run.late_thrown : r.thrown.late = true := by
  unfold Run.thrown
  simp only
  split
  · rfl
  · rfl
  · rfl
  · exact Run.late_cleanup _

/-- The coordinator leaves the consumer as it is, or is done with it. -/
theorem Run.Resumes.tends {stage : Stage} (h : r.Resumes stage r') (hs : stage ≠ .recording) :
    (r'.consumer = r.consumer ∧ r'.stop = r.stop) ∨
      (r'.late = true ∧ ∀ c, r'.consumer = some c → c.cancelled = true) := by
  have hstop : ∀ r : Run, r.stopConsumer.late = true ∧
      ∀ c, r.stopConsumer.consumer = some c → c.cancelled = true := by
    intro r
    unfold Run.stopConsumer
    split
    · refine ⟨rfl, ?_⟩
      intro c hc
      cases hc
      rfl
    · rename_i hnone
      refine ⟨rfl, ?_⟩
      intro c hc
      exact absurd (hnone.symm.trans hc) (by simp)
  have herror : ∀ (r : Run) (b : Bool) (e : ErrorReport),
      (r.emitError b e).consumer = r.consumer ∧ (r.emitError b e).stop = r.stop := by
    intro r b e
    cases b <;> exact ⟨rfl, rfl⟩
  cases h with
  | record => exact absurd rfl hs
  | handle response =>
      left
      unfold Run.handleResponse
      simp only
      split
      · exact herror _ _ _
      · split <;> exact ⟨rfl, rfl⟩
  | signal response signal =>
      left
      cases signal with
      | error e => exact herror _ _ _
      | completed =>
          simp only [Run.handleSignal]
          split
          · exact herror _ _ _
          · unfold Run.complete
            simp only
            split <;> exact ⟨rfl, rfl⟩
  | noSignal | fail => exact .inl (herror _ _ _)
  | emitLast e =>
      unfold Run.cleanup
      split
      · exact .inl ⟨rfl, rfl⟩
      · exact .inr (hstop _)
  | release => exact .inr (hstop _)
  | register | bind | lock | acquireAtOnce | wait | acquire | snapshot | respond | finalize | turn
  | emit | stop | check | unregister =>
      exact .inl ⟨rfl, rfl⟩

theorem Run.emits_of_late (h : r.late = true) : r.emits = [] := by
  unfold Run.late at h
  unfold Run.emits
  split
  · rename_i hs
    rw [hs] at h
    cases h
  · rfl

theorem Run.settled_of_late (h : r.late = true) : r.settled = true := by
  unfold Run.late at h
  unfold Run.settled
  split
  · rename_i hs
    rw [hs] at h
    cases h
  · rfl

/-! ## §5  The invariant -/

/-- A run on its way, as far as the canceled status is concerned. -/
structure Halting (r : Run) : Prop where
  final : Final r
  flight : FlightOpen r
  early : r.cancelling = .idle ∨ r.cancelling = .publishing →
    r.published = false ∧ r.hit = false
  aborting : r.cancelling = .aborting → r.stop = true
  clean : r.published = true → r.clean = true
  settled : r.published = true → r.settled = true
  struck : r.hit = true → r.stop = true ∧ (r.cancelRequested = true ∨ r.late = true)

theorem halting_initial (prepared : PreparedExecution) : Halting (Run.initial prepared) := by
  refine ⟨List.Pairwise.nil, ?_, fun _ => ⟨rfl, rfl⟩, ?_, ?_, ?_, ?_⟩
  · exact fun c e hc => by cases hc
  all_goals exact fun h => by cases h

theorem halting_thrown (h : Halting r) : Halting r.thrown := by
  have hkeeps := Run.keeps_thrown (r := r)
  have hq : r.thrown.published = r.published := by
    unfold Run.published
    rw [(Run.silent_thrown r).queue]
  have hlate := Run.late_thrown (r := r)
  refine ⟨?_, hkeeps.flightOpen h.flight, ?_, ?_, ?_, fun _ => Run.settled_of_late hlate, ?_⟩
  · unfold Final
    rw [(Run.silent_thrown r).queue]
    exact h.final
  · rw [hkeeps.cancelling, hq, hkeeps.hit]
    exact h.early
  · rw [hkeeps.cancelling]
    exact fun ha => hkeeps.stop (h.aborting ha)
  · rw [hq]
    exact fun hp => hkeeps.clean (h.clean hp)
  · rw [hkeeps.hit]
    exact fun hh => ⟨hkeeps.stop (h.struck hh).1, .inr hlate⟩

/-- After `running_task.cancel()`, a coordinator that is not at an await where
the error is thrown puts nothing. -/
theorem Halting.resume_struck (h : Halting r) (hhit : r.hit = true)
    (hnot : ¬ (r.cancelRequested = true ∧ r.awaits = true)) (hr : r.Resumes r.stage r') :
    r'.queue = r.queue ∧ r'.settled = true ∧ (r'.cancelRequested = true ∨ r'.late = true) := by
  rcases (h.struck hhit).2 with hcan | hlate
  · have hawaits : r.awaits = false := by
      rw [← Bool.not_eq_true]
      exact fun ha => hnot ⟨hcan, ha⟩
    unfold Run.awaits at hawaits
    split at hawaits <;> rename_i hs
    · rw [hs] at hr
      cases hr with
      | acquireAtOnce | wait => exact ⟨rfl, rfl, .inl hcan⟩
      | fail _ e hwhere =>
          rcases hwhere with hw | hw | hw | ⟨response, hw⟩ | ⟨response, hw⟩ <;> cases hw
    case h_5 => cases hawaits
    all_goals
      obtain ⟨hlate', hq⟩ := hr.late rfl (by unfold Run.late; rw [hs])
      exact ⟨hq, Run.settled_of_late hlate', .inr hlate'⟩
  · obtain ⟨hlate', hq⟩ := hr.late rfl hlate
    exact ⟨hq, Run.settled_of_late hlate', .inr hlate'⟩

theorem halting_resume (h : Halting r) {a : Answer} (hquiet : r.quiet (.step a) = true)
    (hnot : ¬ (r.cancelRequested = true ∧ r.awaits = true)) (hresume : r.resume a = some r') :
    Halting r' := by
  have hr := Run.resume_cases hresume
  have hkeeps := hr.keeps
  -- while the canceled status is out, the coordinator puts nothing of weight
  have hput : Final r' ∧ r'.published = r.published ∧ (r.published = true → r'.settled = true) ∧
      (r.hit = true → r'.cancelRequested = true ∨ r'.late = true) := by
    by_cases hhit : r.hit = true
    · obtain ⟨hq, hsettled, hlate⟩ := h.resume_struck hhit hnot hr
      unfold Final Run.published
      rw [hq]
      exact ⟨h.final, rfl, fun _ => hsettled, fun _ => hlate⟩
    · have hopen : r.published = true → Run.concludes r.stage a = false := by
        intro hp
        unfold Run.quiet Run.exposed at hquiet
        rw [Bool.not_eq_true] at hhit
        rw [hp, hhit, Bool.or_eq_true, Bool.or_eq_true, Bool.and_eq_true] at hquiet
        rcases hquiet with (hcon | hcon) | hcon
        · cases hcon
        · exact absurd hcon hnot
        · simpa only [Bool.not_eq_true'] using hcon
      refine ⟨?_, ?_, fun hp => Run.resume_settled hresume (hopen hp),
        fun hcon => absurd hcon hhit⟩
      · rcases hr.queue with hq | ⟨-, hq⟩ | ⟨e, rest, hs, hq⟩
        · unfold Final
          rw [hq]
          exact h.final
        · have hfinal : Final (r.put .run (.task .working [] none {})) :=
            h.final.put fun _ _ => ⟨rfl, fun u hu => by cases hu⟩
          unfold Final at hfinal ⊢
          rw [hq]
          exact hfinal
        · have hfinal : Final (r.put .run e) := h.final.put fun hp => by
            have hcon := hopen hp
            rw [hs] at hcon
            cases hcon
          unfold Final at hfinal ⊢
          rw [hq]
          exact hfinal
      · rcases hr.queue with hq | ⟨-, hq⟩ | ⟨e, rest, hs, hq⟩
        · unfold Run.published
          rw [hq]
        · exact published_append hq rfl
        · exact published_append hq rfl
  obtain ⟨hfinal, hpub, hsettled, hlate⟩ := hput
  refine ⟨hfinal, hkeeps.flightOpen h.flight, ?_, ?_, ?_, ?_, ?_⟩
  · rw [hkeeps.cancelling, hpub, hkeeps.hit]
    exact h.early
  · rw [hkeeps.cancelling]
    exact fun ha => hkeeps.stop (h.aborting ha)
  · rw [hpub]
    exact fun hp => hkeeps.clean (h.clean hp)
  · rw [hpub]
    exact hsettled
  · rw [hkeeps.hit]
    exact fun hh => ⟨hkeeps.stop (h.struck hh).1, hlate hh⟩

theorem halting_consumes (h : Halting r) (hquiet : r.quiet act = true)
    (hc : r.consumer = some c) (hmove : r.Consumes c act r') : Halting r' := by
  have hsame := hmove.same
  obtain ⟨hfinal, hpub⟩ := hmove.final hc h.flight h.clean h.final
  have hstop : r.stop = true → r'.stop = true := hmove.stop
  have hdeliver : r.published = true → ∀ event, act = .deliver event → r.stop = false →
      ∀ op ∈ eventOps r.config event, op.isPart = false := by
    rintro hp event rfl hrunning op hop
    have hhit : r.hit = false := by
      rw [← Bool.not_eq_true]
      exact fun hh => absurd (h.struck hh).1 (by rw [hrunning]; decide)
    unfold Run.quiet Run.exposed at hquiet
    rw [hp, hhit, hrunning, Bool.or_false, Bool.or_eq_true, List.all_eq_true] at hquiet
    rcases hquiet with hcon | hparts
    · cases hcon
    · simpa only [Bool.not_eq_true'] using hparts op hop
  refine ⟨hfinal, hmove.flightOpen, ?_, ?_, ?_, ?_, ?_⟩
  · rw [hsame.cancelling, hpub, hsame.hit]
    exact h.early
  · rw [hsame.cancelling]
    exact fun ha => hstop (h.aborting ha)
  · rw [hpub]
    exact fun hp => hmove.clean hc (h.clean hp) (hdeliver hp)
  · rw [hpub]
    unfold Run.settled
    rw [hsame.stage, hsame.cancelRequested]
    exact h.settled
  · unfold Run.late
    rw [hsame.hit, hsame.stage, hsame.cancelRequested]
    exact fun hh => ⟨hstop (h.struck hh).1, (h.struck hh).2⟩

/-- A cancellation that comes due settles the coordinator. -/
theorem halting_cancelled (h : Halting r) : Halting { r with cancelRequested := true } := by
  refine ⟨h.final, h.flight, h.early, h.aborting, h.clean, ?_, ?_⟩
  · intro _
    unfold Run.settled
    split <;> rfl
  · exact fun hh => ⟨(h.struck hh).1, .inl rfl⟩

/-- `running_task.cancel()` strikes the run, unless it has ended. -/
theorem halting_hitRun (h : Halting r) (hstop : r.stop = true) : Halting r.hitRun := by
  refine ⟨h.final, h.flight, ?_, ?_, h.clean, ?_, ?_⟩
  · exact fun hcon => by rcases hcon with hcon | hcon <;> cases hcon
  · exact fun hcon => by cases hcon
  · intro hp
    have hsettled := h.settled hp
    unfold Run.settled at hsettled ⊢
    change (match r.stage with
      | .emitting _ _ => r.cancelRequested || r.alive
      | _ => true) = true
    split
    · rename_i hs
      rw [hs] at hsettled
      change r.cancelRequested = true at hsettled
      rw [hsettled, Bool.true_or]
    · rfl
  · intro _
    refine ⟨hstop, ?_⟩
    change (r.cancelRequested || r.alive) = true ∨ _
    unfold Run.alive
    split
    · rename_i hs
      right
      unfold Run.late Run.hitRun
      rw [hs]
    · left
      rw [Bool.or_true]

theorem halting_cancels (h : Halting r) {stage : CancelStage} (hs : r.cancelling = stage)
    (hquiet : stage = .publishing → r.clean = true ∧ r.settled = true)
    (hmove : r.Cancels stage r') : Halting r' := by
  cases hmove with
  | call =>
      exact ⟨h.final, h.flight, fun _ => h.early (.inl hs), (fun hcon => by cases hcon), h.clean,
        h.settled, h.struck⟩
  | publish =>
      obtain ⟨-, hhit⟩ := h.early (.inr hs)
      refine ⟨h.final.put (fun _ hcon => by cases hcon), h.flight, ?_, ?_, fun _ => (hquiet rfl).1,
        fun _ => (hquiet rfl).2, h.struck⟩
      · exact fun hcon => by rcases hcon with hcon | hcon <;> cases hcon
      · exact fun hcon => by cases hcon
  | look =>
      exact ⟨h.final, h.flight, (fun hcon => by rcases hcon with hcon | hcon <;> cases hcon),
        (fun hcon => by cases hcon), h.clean, h.settled, h.struck⟩
  | abort found recorded hfound =>
      exact ⟨h.final, h.flight, (fun hcon => by rcases hcon with hcon | hcon <;> cases hcon),
        fun _ => rfl, h.clean, h.settled, fun hh => ⟨rfl, (h.struck hh).2⟩⟩
  | hit found recorded hfound =>
      refine halting_hitRun (r := { r with stop := true }) ?_ rfl
      exact ⟨h.final, h.flight, h.early, fun _ => rfl, h.clean, h.settled,
        fun hh => ⟨rfl, (h.struck hh).2⟩⟩
  | spare found recorded =>
      refine ⟨h.final, h.flight, (fun hcon => by rcases hcon with hcon | hcon <;> cases hcon),
        (fun hcon => by cases hcon), h.clean, h.settled, ?_⟩
      intro hh
      refine ⟨?_, (h.struck hh).2⟩
      change (r.stop || found) = true
      rw [(h.struck hh).1, Bool.true_or]
  | aborted => exact halting_hitRun h (h.aborting hs)
  | fail | gone =>
      exact ⟨h.final, h.flight, (fun hcon => by rcases hcon with hcon | hcon <;> cases hcon),
        (fun hcon => by cases hcon), h.clean, h.settled, h.struck⟩
  | report shown message =>
      have hq : ({ r.put .cancel (.task .failed [] (some message) {}) with
          cancelling := .done } : Run).published = r.published :=
        published_append (x := (.cancel, .task .failed [] (some message) {})) rfl rfl
      refine ⟨h.final.put (fun _ hcon => by cases hcon), h.flight, ?_, ?_, ?_, ?_, h.struck⟩
      · exact fun hcon => by rcases hcon with hcon | hcon <;> cases hcon
      · exact fun hcon => by cases hcon
      · rw [hq]
        exact h.clean
      · rw [hq]
        exact h.settled

/-- The steps that meet the condition. -/
def Quiet (r : Run) (act : RunAction) : Prop := r.quiet act = true

theorem halting_step (h : Halting r) (hquiet : Quiet r act) (hstep : r.act act = some r') :
    Halting r' := by
  rcases Run.act_cases hstep with ⟨a, rfl, ha⟩ | ⟨c, hc, hmove⟩ | ⟨rfl, -, rfl⟩ | ⟨a, rfl, ha⟩
  · unfold Run.step at ha
    split at ha <;> rename_i hcan <;> rw [Bool.and_eq_true] at hcan
    · cases ha
      exact halting_thrown h
    · exact halting_resume h hquiet hcan ha
  · exact halting_consumes h hquiet hc hmove
  · exact halting_cancelled h
  · refine halting_cancels h rfl ?_ (Run.cancelStep_cases ha)
    intro hs
    unfold Quiet Run.quiet at hquiet
    simpa only [hs, Bool.and_eq_true] using hquiet

/-! ## §6  Cancellation is final -/

/-- In every run whose steps all meet the condition, the run enqueues nothing
that closes the task, and no artifact update, after the canceled status. -/
theorem cancellation_is_final {prepared : PreparedExecution} {acts : List RunAction} {r : Run}
    (h : Machine.Runs Run.act Quiet (Run.initial prepared) acts r) : Final r := by
  have hhalting : Halting r :=
    h.invariant (fun _ _ _ hi hok hstep => halting_step hi hok hstep) (halting_initial prepared)
  exact hhalting.final

/-- `cancel` while `send_message` is pending; the upstream answers nothing until
the run is cancelled. -/
def cancelledRun : List RunAction :=
  upToSend ++ [.cancelStep .ok, .cancelStep .ok, .cancelStep .ok, .cancelStep .ok,
    .cancelStep .ok, .step .ok] ++ throughCleanup

/-- The upstream answers the message while it is asked to abort. -/
def answeredRun : List RunAction :=
  upToSend ++ [.cancelStep .ok, .cancelStep .ok, .cancelStep .ok, .cancelStep .ok,
    .step (.response exampleResponse), .step (.toolResults false), .step .ok, .cancelStep .ok]

/-- A run that is not streamed, but answered with a task at once. -/
def examplePlain : PreparedExecution :=
  { examplePrepared with streamingRequest := false, returnImmediately := true }

def afterCancelled : Run :=
  Machine.after Run.act (Run.initial examplePrepared) cancelledRun (by rfl)

def afterAnswered : Run :=
  Machine.after Run.act (Run.initial examplePlain) answeredRun (by rfl)

theorem quiet_cancellation_is_final :
    afterCancelled.stage = .ended ∧ afterCancelled.published = true ∧ Final afterCancelled := by
  have hrun : Machine.Runs Run.act Quiet (Run.initial examplePrepared) cancelledRun
      afterCancelled :=
    Machine.runs_of_restrict Run.quiet (fun _ _ h => h) (by rfl)
  exact ⟨rfl, rfl, cancellation_is_final hrun⟩

/-- The completed task follows the canceled status. -/
theorem answer_during_abort_completes :
    Machine.run Run.act (Run.initial examplePlain) answeredRun = some afterAnswered ∧
      ∃ metadata task, afterAnswered.queue = [(.run, .task .working [] none {}),
        (.cancel, .status .canceled metadata), (.run, task)] ∧ closing task = true ∧
      ¬ Final afterAnswered := by
  refine ⟨Machine.run_after (by rfl), {}, _, rfl, rfl, ?_⟩
  intro hfinal
  have hq : ∃ task, afterAnswered.queue = [(.run, .task .working [] none {}),
      (.cancel, .status .canceled {}), (.run, task)] ∧ closing task = true := ⟨_, rfl, rfl⟩
  obtain ⟨task, hq, htask⟩ := hq
  unfold Final at hfinal
  rw [hq] at hfinal
  simp only [List.pairwise_cons] at hfinal
  have hharmless := hfinal.2.1 (.run, task) (List.mem_singleton.mpr rfl) rfl rfl
  rw [htask] at hharmless
  exact absurd hharmless.1 (by decide)

end OpencodeA2a.Execution
