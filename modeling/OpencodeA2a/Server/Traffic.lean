import OpencodeA2a.Library.Interleaving
import OpencodeA2a.Server.FrontDoor
import OpencodeA2a.Server.RateLimiter

/-!
# Requests side by side

The server with its rate limiter, and any number of requests that come in at any time and go on
in any order, a call of one of them at a time. The limiter is asked by all of them and answers as
its calls so far have it; what the others of their calls bring is left open.
-/

namespace OpencodeA2a.Server.Middleware

open OpencodeA2a.Stream (Text)
open OpencodeA2a.Effects

/-! ## §1  The traffic -/

/-- A request under way. -/
structure Request (s : Settings) where
  head : RequestHead
  chunks : List Bytes
  thread : Thread (server s head chunks)
  /-- when the limiter has let it pass -/
  admittedAt : Option ℚ := none

structure Traffic (s : Settings) where
  limits : RateLimits
  now : ℚ
  /-- those of the limiter, with their times -/
  calls : List (ℚ × LimiterCall Text) := []
  requests : List (Request s) := []

/-- What answers the other calls. -/
abbrev Oracle : Type := (e : GateEffect) → Except Failure (GateEffect.Answer e)

inductive TrafficAction where
  | wait (seconds : ℚ)
  | arrive (head : RequestHead) (chunks : List Bytes)
  /-- the call that the request awaits is answered -/
  | answer (i : ℕ) (oracle : Oracle)

def GateEffect.limiterCall : GateEffect → Option (LimiterCall Text)
  | .checkAndRecord key => some (.checkAndRecord key)
  | .retryAfter key => some (.retryAfter key)
  | .log _ | .serve _ => none

variable {s : Settings}

namespace Traffic

variable (t : Traffic s)

def limiter : RateLimiter Text := (RateLimiter.initial Text t.limits).after t.calls

def reply (oracle : Oracle) : Oracle
  | .checkAndRecord key => .ok (t.limiter.checkAndRecord t.now key).2
  | .retryAfter key => .ok (t.limiter.retryAfter t.now key).2
  | .log line => oracle (.log line)
  | .serve v => oracle (.serve v)

/-- The limiter lets the request pass. -/
def admits : GateEffect → Bool
  | .checkAndRecord key => (t.limiter.checkAndRecord t.now key).2
  | _ => false

/-- The request goes on behind the call that it awaits. -/
def goOn (oracle : Oracle) (request : Request s) (e : GateEffect) : Request s :=
  { request with
    thread := request.thread.answer (t.reply oracle)
    admittedAt := if t.admits e then some t.now else request.admittedAt }

def step : TrafficAction → Traffic s
  | .wait seconds => { t with now := t.now + max 0 seconds }
  | .arrive head chunks =>
      { t with requests := t.requests ++ [{ head, chunks, thread := .start _ }] }
  | .answer i oracle =>
      match t.requests[i]? with
      | none => t
      | some request =>
          match request.thread.pending with
          | none => t
          | some e =>
              { t with
                calls := t.calls ++ e.limiterCall.toList.map fun call => (t.now, call)
                requests := t.requests.set i (t.goOn oracle request e) }

def start (s : Settings) (limits : RateLimits) (now : ℚ) : Traffic s := { limits, now }

def after (actions : List TrafficAction) : Traffic s := actions.foldl step t

end Traffic

/-! ## §2  A request on its way -/

/-- The key that the limiter has let pass. -/
def admittedKey : List Mark → Option Text
  | .admitted key :: _ => some key
  | _ => none

/-- The key of the request that has been served. -/
def servedKey (ms : List Mark) : Option Text :=
  ms.findSome? fun
    | .served v => some (resolveRateLimitKey v)
    | .admitted _ => none

/-- The marks of a request, from its beginning on. -/
def Shape (s : Settings) (head : RequestHead) (ms : List Mark) : Prop :=
  Unserved ms ∨ ∃ v, v.head = head ∧ ms = v.admission s ++ [.served v]

variable {head : RequestHead} {ms rest : List Mark}

theorem Unserved.of_append (h : Unserved (ms ++ rest)) : Unserved ms := by
  rcases h with h | ⟨key, h⟩
  · exact .inl (List.append_eq_nil_iff.mp h).1
  · rcases List.append_eq_singleton_iff.mp h with ⟨rfl, -⟩ | ⟨rfl, -⟩
    · exact .inl rfl
    · exact .inr ⟨key, rfl⟩

theorem unserved_admission (v : Visit) : Unserved (v.admission s) := by
  unfold Visit.admission
  split
  · exact .inr ⟨_, rfl⟩
  · exact .inl rfl

theorem Shape.of_append (h : Shape s head (ms ++ rest)) : Shape s head ms := by
  rcases h with h | ⟨v, hhead, h⟩
  · exact .inl h.of_append
  -- what is served comes last, so a proper beginning of the marks is without it
  · cases rest using List.reverseRecOn with
    | nil => exact .inr ⟨v, hhead, by rwa [List.append_nil] at h⟩
    | append_singleton rest m _ =>
        rw [← List.append_assoc] at h
        have hinit := (List.append_inj' h rfl).1
        have hunserved : Unserved (ms ++ rest) := hinit ▸ unserved_admission v
        exact .inl hunserved.of_append

/-- The limiter lets a request pass once, and first of all. -/
theorem Shape.eq_nil {key : Text} (h : Shape s head (ms ++ [.admitted key])) : ms = [] := by
  rcases h with (h | ⟨key', h⟩) | ⟨v, -, h⟩
  · simp at h
  · rcases List.append_eq_singleton_iff.mp h with ⟨hms, -⟩ | ⟨-, h⟩
    · exact hms
    · cases h
  · have hlast := (List.append_inj' h rfl).2
    cases hlast

theorem admittedKey_append_served {v : Visit} : admittedKey (ms ++ [.served v]) = admittedKey ms := by
  cases ms with
  | nil => rfl
  | cons m ms => cases m <;> rfl

/-- A request that the limiter is asked for is served with the key that has been let pass. -/
theorem Shape.admittedKey_eq (h : Shape s head ms) (hlimited : head.isLimited s = true) {key : Text}
    (hserved : servedKey ms = some key) : admittedKey ms = some key := by
  rcases h with (rfl | ⟨key', rfl⟩) | ⟨v, rfl, rfl⟩
  · cases hserved
  · cases hserved
  · unfold Visit.admission at hserved ⊢
    rw [if_pos hlimited] at hserved ⊢
    exact hserved

namespace Request

variable (r : Request s)

def marks : List Mark := Middleware.marks r.thread.past

/-- When the limiter has let the request pass with the key. -/
def admission (k : Text) : Option ℚ := if admittedKey r.marks = some k then r.admittedAt else none

/-- The request has been served with the key, if the limiter was asked for it. -/
def servedWith (k : Text) : Bool := r.head.isLimited s && servedKey r.marks = some k

theorem shape : Shape s r.head r.marks := by
  obtain ⟨_, rest, houtcome⟩ := (meets_server s r.head r.chunks).begins r.thread.leads
    fun _ _ => .error (.other [])
  have hshape : Shape s r.head (r.marks ++ rest) := by
    rcases houtcome with ⟨-, principal, v, -, hv, hmarks⟩ | ⟨-, hunserved⟩ | ⟨-, hmarks⟩
    · exact .inr ⟨v, hv.head_eq, hmarks⟩
    · exact .inl hunserved
    · exact .inl (.inl hmarks)
  exact hshape.of_append

variable {r}

theorem admission_of_servedWith {k : Text} (h : r.servedWith k = true) :
    r.admission k = r.admittedAt := by
  unfold servedWith at h
  rw [Bool.and_eq_true, decide_eq_true_iff] at h
  exact if_pos (r.shape.admittedKey_eq h.1 h.2)

end Request

/-! ## §3  What each step keeps -/

section Invariant

open RateLimiter (initial admissions)

/-- The requests have been let pass as the limiter has it. -/
structure Traffic.Inv (t : Traffic s) : Prop where
  clock : Chronological t.calls
  past : ∀ c ∈ t.calls, c.1 ≤ t.now
  dated : ∀ r ∈ t.requests, (admittedKey r.marks).isSome = true →
    ∃ e ≤ t.now, r.admittedAt = some e
  /-- whatever is counted -/
  counted : ∀ k (p : ℚ → Bool), t.requests.countP (fun r => (r.admission k).any p) =
    (admissions k (initial Text t.limits) t.calls).countP p

theorem Traffic.inv_start (limits : RateLimits) (now : ℚ) : (Traffic.start s limits now).Inv where
  clock := .nil
  past := by rintro _ ⟨⟩
  dated := by rintro _ ⟨⟩
  counted _ _ := rfl

/-- One element of a list is replaced; the old one has not been counted. -/
theorem countP_set_of_false {α : Type} {l : List α} {i : ℕ} {a b : α} {p : α → Bool}
    (hget : l[i]? = some a) (ha : p a = false) :
    (l.set i b).countP p = l.countP p + [b].countP p := by
  obtain ⟨hi, rfl⟩ := List.getElem?_eq_some_iff.mp hget
  rw [List.countP_set hi, ha, List.countP_singleton]
  simp

theorem countP_set_of_eq {α : Type} {l : List α} {i : ℕ} {a b : α} {p : α → Bool}
    (hget : l[i]? = some a) (hb : p b = p a) : (l.set i b).countP p = l.countP p := by
  obtain ⟨hi, rfl⟩ := List.getElem?_eq_some_iff.mp hget
  rw [List.countP_set hi, hb]
  split
  · rename_i hp
    have hpos := List.countP_pos_iff.mpr ⟨l[i], List.getElem_mem hi, hp⟩
    omega
  · rfl

variable {t : Traffic s} {request : Request s} {e : GateEffect} (oracle : Oracle)

theorem marks_goOn (hpending : request.thread.pending = some e) :
    (t.goOn oracle request e).marks = request.marks ++ (markOf ⟨e, t.reply oracle e⟩).toList := by
  unfold Request.marks marks Traffic.goOn
  dsimp only
  rw [Thread.past_answer hpending, List.filterMap_append]
  congr 1

/-- A call that does not let the request pass leaves its key as it is. -/
theorem admittedKey_goOn (hpending : request.thread.pending = some e) (hadmits : t.admits e = false) :
    admittedKey (t.goOn oracle request e).marks = admittedKey request.marks := by
  rw [marks_goOn oracle hpending]
  cases e with
  | checkAndRecord key =>
      have hreply : t.reply oracle (.checkAndRecord key) = .ok false := congrArg Except.ok hadmits
      rw [hreply]
      exact congrArg admittedKey (List.append_nil _)
  | retryAfter key => exact congrArg admittedKey (List.append_nil _)
  | log line => exact congrArg admittedKey (List.append_nil _)
  | serve v => exact admittedKey_append_served

theorem admission_goOn_of_false (hpending : request.thread.pending = some e)
    (hadmits : t.admits e = false) (k : Text) :
    (t.goOn oracle request e).admission k = request.admission k := by
  unfold Request.admission
  rw [admittedKey_goOn oracle hpending hadmits]
  unfold Traffic.goOn
  rw [hadmits]
  rfl

/-- The limiter lets a request pass that it has not let pass before. -/
theorem marks_goOn_of_admitted {key : Text}
    (hpending : request.thread.pending = some (.checkAndRecord key))
    (hadmits : t.admits (.checkAndRecord key) = true) :
    request.marks = [] ∧
      (t.goOn oracle request (.checkAndRecord key)).marks = [.admitted key] := by
  have hreply : t.reply oracle (.checkAndRecord key) = .ok true := congrArg Except.ok hadmits
  have hmarks := marks_goOn (t := t) oracle hpending
  rw [hreply] at hmarks
  have hshape := (t.goOn oracle request (.checkAndRecord key)).shape
  rw [hmarks] at hshape
  have hnil : request.marks = [] := hshape.eq_nil
  rw [hnil] at hmarks
  exact ⟨hnil, hmarks⟩

/-- The limiter's list of the times at which it has let the key pass, after one more call. -/
theorem admissions_concat (k : Text) (call : LimiterCall Text) :
    admissions k (initial Text t.limits) (t.calls ++ [(t.now, call)]) =
      admissions k (initial Text t.limits) t.calls ++
        if call = .checkAndRecord k ∧ (t.limiter.perform t.now call).2 = .admitted true then [t.now]
        else [] := by
  rw [RateLimiter.admissions_append]
  exact congrArg _ (List.append_nil _)

theorem admissions_goOn (hadmits : t.admits e = false) (k : Text) :
    admissions k (initial Text t.limits)
        (t.calls ++ e.limiterCall.toList.map fun call => (t.now, call)) =
      admissions k (initial Text t.limits) t.calls := by
  cases e with
  | checkAndRecord key =>
      refine (admissions_concat k _).trans ?_
      have hreply : (t.limiter.perform t.now (.checkAndRecord key)).2 = .admitted false :=
        congrArg LimiterReply.admitted hadmits
      rw [hreply, if_neg (by simp), List.append_nil]
  | retryAfter key =>
      refine (admissions_concat k _).trans ?_
      rw [if_neg (by simp), List.append_nil]
  | log line => exact congrArg _ (List.append_nil _)
  | serve v => exact congrArg _ (List.append_nil _)

theorem Traffic.Inv.answer (h : t.Inv) {i : ℕ} (hget : t.requests[i]? = some request)
    (hpending : request.thread.pending = some e) :
    Traffic.Inv { t with
      calls := t.calls ++ e.limiterCall.toList.map fun call => (t.now, call)
      requests := t.requests.set i (t.goOn oracle request e) } where
  clock := by
    refine h.clock.append_of_forall_eq h.past fun c hc => ?_
    obtain ⟨_, -, rfl⟩ := List.mem_map.mp hc
    rfl
  past := by
    intro c hc
    rcases List.mem_append.mp hc with hc | hc
    · exact h.past c hc
    · obtain ⟨_, -, rfl⟩ := List.mem_map.mp hc
      exact le_rfl
  dated := by
    intro r hr hkey
    rcases List.mem_or_eq_of_mem_set hr with hr | rfl
    · exact h.dated r hr hkey
    · cases hadmits : t.admits e with
      | true => exact ⟨t.now, le_rfl, if_pos hadmits⟩
      | false =>
          rw [admittedKey_goOn oracle hpending hadmits] at hkey
          obtain ⟨at_, hle, hat⟩ := h.dated request (List.mem_of_getElem? hget) hkey
          exact ⟨at_, hle, (if_neg (by rw [hadmits]; decide)).trans hat⟩
  counted := by
    intro k p
    dsimp only
    -- only a call that lets a request pass is counted, by the limiter and among the requests
    cases hadmits : t.admits e with
    | false =>
        rw [admissions_goOn hadmits, ← h.counted k p]
        exact countP_set_of_eq hget (congrArg (Option.any p)
          (admission_goOn_of_false oracle hpending hadmits k))
    | true =>
        cases e with
        | checkAndRecord key =>
            -- the request has not been let pass before: one more of either
            obtain ⟨hnil, hmarks⟩ := marks_goOn_of_admitted oracle hpending hadmits
            have hbefore : request.admission k = none := by
              unfold Request.admission
              rw [hnil]
              exact if_neg (by rintro ⟨⟩)
            have hafter : (t.goOn oracle request (.checkAndRecord key)).admission k =
                if key = k then some t.now else none := by
              unfold Request.admission
              rw [hmarks]
              simp [admittedKey, Traffic.goOn, hadmits]
            have hreply : (t.limiter.perform t.now (.checkAndRecord key)).2 = .admitted true :=
              congrArg LimiterReply.admitted hadmits
            have hlogged := admissions_concat (t := t) k (.checkAndRecord key)
            rw [hreply] at hlogged
            rw [countP_set_of_false hget (by rw [hbefore]; rfl), List.countP_singleton, hafter,
              h.counted k p]
            refine Eq.trans ?_ (congrArg (List.countP p) hlogged.symm)
            rw [List.countP_append]
            by_cases hkey : key = k <;> simp [hkey]
        | retryAfter key => cases hadmits
        | log line => cases hadmits
        | serve v => cases hadmits

theorem Traffic.Inv.step (h : t.Inv) (action : TrafficAction) : (t.step action).Inv := by
  cases action with
  | wait seconds =>
      have hlater : t.now ≤ t.now + max 0 seconds := le_add_of_nonneg_right (le_max_left 0 seconds)
      refine ⟨h.clock, fun c hc => (h.past c hc).trans hlater, fun r hr hkey => ?_, h.counted⟩
      obtain ⟨e, hle, he⟩ := h.dated r hr hkey
      exact ⟨e, hle.trans hlater, he⟩
  | arrive head chunks =>
      refine ⟨h.clock, h.past, fun r hr hkey => ?_, fun k p => ?_⟩
      · rcases List.mem_append.mp hr with hr | hr
        · exact h.dated r hr hkey
        · obtain rfl := List.mem_singleton.mp hr
          cases hkey
      · show List.countP _ (t.requests ++ _) = _
        rw [List.countP_append, h.counted k p]
        rfl
  | answer i oracle =>
      unfold Traffic.step
      dsimp only
      split
      · exact h
      · rename_i request hget
        split
        · exact h
        · rename_i e hpending
          exact h.answer oracle hget hpending

theorem Traffic.Inv.after (h : t.Inv) (actions : List TrafficAction) : (t.after actions).Inv := by
  induction actions generalizing t with
  | nil => exact h
  | cons action actions ih => exact ih (h.step action)

theorem Traffic.limits_after (actions : List TrafficAction) : (t.after actions).limits = t.limits := by
  induction actions generalizing t with
  | nil => rfl
  | cons action actions ih =>
      refine (ih (t := t.step action)).trans ?_
      cases action with
      | wait seconds => rfl
      | arrive head chunks => rfl
      | answer i oracle =>
          unfold Traffic.step
          dsimp only
          split
          · rfl
          · split <;> rfl

end Invariant

/-! ## §4  The limit of the traffic -/

section Window

open RateLimiter (initial admissions inWindow)

variable {limits : RateLimits}

/-- Where a time is added, the window that ends there has had room for it. -/
def Spaced (limits : RateLimits) (times : List ℚ) : Prop :=
  ∀ before e, before ++ [e] <+: times → (∀ e' ∈ before, e' ≤ e) ∧
    ((inWindow limits e before).length : ℤ) < limits.maxRequests

/-- Then so it is with every window, wherever it ends. -/
theorem Spaced.length_inWindow {times : List ℚ} (h : Spaced limits times) (u : ℚ) :
    ((inWindow limits u times).length : ℤ) ≤ limits.maxRequests := by
  induction times using List.reverseRecOn with
  | nil => exact limits.maxRequests_pos.le
  | append_singleton before e ih =>
      obtain ⟨hle, hroom⟩ := h before e (List.prefix_refl _)
      have hbefore := ih fun before' e' hinit => h before' e' (hinit.trans (List.prefix_append _ _))
      have hsplit : inWindow limits u (before ++ [e]) =
          inWindow limits u before ++ inWindow limits u [e] := List.filter_append ..
      rw [hsplit, List.length_append]
      by_cases he : u - limits.windowSeconds < e ∧ e ≤ u
      · -- the last time is in the window: all others there are in the window that ends with it
        have hsub : (inWindow limits u before).length ≤ (inWindow limits e before).length := by
          unfold inWindow
          rw [← List.countP_eq_length_filter, ← List.countP_eq_length_filter]
          refine List.countP_mono_left fun e' he' hin => ?_
          rw [decide_eq_true_iff] at hin ⊢
          exact ⟨by linarith [hin.1, he.2], hle e' he'⟩
        have hlast : (inWindow limits u [e]).length = 1 := by simp [inWindow, he]
        push_cast
        omega
      · have hlast : inWindow limits u [e] = [] := by simpa [inWindow] using he
        rw [hlast]
        exact hbefore

/-- The times at which the limiter lets a key pass are so. -/
theorem spaced_admissions {calls : List (ℚ × LimiterCall Text)} {known : List Text}
    (hroom : (known.length : ℤ) ≤ limits.maxKeys) (hclock : Chronological calls)
    (hkeys : ∀ c ∈ calls, c.2.key ∈ known) (k : Text) :
    Spaced limits (admissions k (initial Text limits) calls) := by
  -- by induction on the calls from the end: a time is added by the last call only
  induction calls using List.reverseRecOn with
  | nil =>
      intro before e hprefix
      simp [RateLimiter.admissions] at hprefix
  | append_singleton calls c ih =>
      obtain ⟨now, call⟩ := c
      obtain ⟨hcalls, hlast⟩ := hclock.concat
      have hknown : ∀ c ∈ calls, c.2.key ∈ known := fun c hc => hkeys c (List.mem_append_left _ hc)
      have htracks := RateLimiter.tracks_after hroom hcalls hlast hknown
      have hspaced := ih hcalls hknown
      rw [RateLimiter.admissions_append]
      show Spaced limits (_ ++ ((if _ then _ else _) ++ []))
      rw [List.append_nil]
      split
      · rename_i hadmitted
        obtain ⟨rfl, hadmitted⟩ := hadmitted
        have hadmits := (htracks.admits k).mp (LimiterReply.admitted.inj hadmitted)
        rw [RateLimiter.limits_after] at hadmits
        intro before e hprefix
        rcases List.prefix_concat_iff.mp hprefix with heq | hprefix
        · obtain ⟨rfl, he⟩ := List.append_inj' heq rfl
          cases he
          exact ⟨htracks.past k, hadmits⟩
        · exact hspaced before e hprefix
      · rw [List.append_nil]
        exact hspaced

/-- In any window at most so many of the requests that are let pass are served with a key as the
limiter allows, however the requests go on side by side, as long as the limiter's table has room for
all keys. -/
theorem traffic_limited (s : Settings) (limits : RateLimits) (now : ℚ)
    (actions : List TrafficAction) :
    (∀ r ∈ ((Traffic.start s limits now).after actions).requests, ∀ k, r.servedWith k = true →
      ∃ e ≤ ((Traffic.start s limits now).after actions).now, r.admittedAt = some e) ∧
    (RateLimiter.Fits limits ((Traffic.start s limits now).after actions).calls → ∀ k u,
      ((((Traffic.start s limits now).after actions).requests.countP fun r => r.servedWith k &&
        r.admittedAt.any fun e => u - limits.windowSeconds < e ∧ e ≤ u) : ℤ) ≤
          limits.maxRequests) := by
  have hinv := (Traffic.inv_start (s := s) limits now).after actions
  have hlimits := Traffic.limits_after (t := Traffic.start s limits now) actions
  -- from here on nothing but the invariant is known of the traffic
  generalize (Traffic.start s limits now).after actions = t at hinv hlimits
  obtain rfl : limits = t.limits := hlimits.symm
  constructor
  · intro r hr k hserved
    refine hinv.dated r hr ?_
    unfold Request.servedWith at hserved
    rw [Bool.and_eq_true, decide_eq_true_iff] at hserved
    rw [r.shape.admittedKey_eq hserved.1 hserved.2]
    rfl
  · intro hfits k u
    have hspaced := spaced_admissions hfits hinv.clock
      (fun c hc => List.mem_dedup.mpr (List.mem_map_of_mem hc)) k
    refine le_trans ?_ (hspaced.length_inWindow u)
    unfold inWindow
    rw [← List.countP_eq_length_filter, ← hinv.counted k]
    refine Int.ofNat_le.mpr (List.countP_mono_left fun r hr hserved => ?_)
    rw [Bool.and_eq_true] at hserved
    rw [Request.admission_of_servedWith hserved.1]
    exact hserved.2

end Window

end OpencodeA2a.Server.Middleware
