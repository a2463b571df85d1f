import OpencodeA2a.Extension.Dispatch

/-!
# Results that can be rendered

What the handlers make of the answers of the upstream server holds no number but integers, and
can be sent as it is. The exceptions are the statuses of the sessions, the summaries of the
workspace methods and the details of an interrupt.
-/

namespace OpencodeA2a.Extension

open OpencodeA2a.Stream (Text Json Mapping)
open OpencodeA2a.Effects
open OpencodeA2a.Jsonrpc

/-! ## §1  Projections -/

theorem projected_eq_ok {c : ErrorContext} {x : Except Text Mapping} {result : Mapping} :
    projected c x = .ok result ↔ x = .ok result := by
  cases x with
  | error text => exact iff_of_false (by rintro ⟨⟩) (by rintro ⟨⟩)
  | ok result' => rw [projected, Except.mapError, Except.ok.injEq, Except.ok.injEq]

theorem SessionQuery.renderable_project {query : SessionQuery} {payload : Json}
    {nextCursor : Option Text} {result : Mapping} (h : query.project payload nextCursor = .ok result) :
    renderableEntries result = true := by
  cases query with
  | listSessions query =>
      obtain ⟨items, -, h⟩ := bind_eq_ok.mp h
      cases h
      have htasks := renderableItems_filterMap (f := asA2aSessionTask)
        (fun _ _ => renderable_asA2aSessionTask) items
      have hlimit : renderableItems
          (applySessionQueryLimit (items.filterMap asA2aSessionTask) query.limit.1) = true := by
        unfold applySessionQueryLimit
        split
        · exact htasks
        · exact renderableItems_iff.mpr fun j hj =>
            renderableItems_iff.mp htasks j (List.mem_of_mem_take hj)
      simpa using hlimit
  | getSessionMessages query =>
      obtain ⟨items, -, h⟩ := bind_eq_ok.mp h
      cases h
      have hmessages := renderableItems_filterMap (f := asA2aMessage query.sessionId)
        (fun _ _ => renderable_asA2aMessage) items
      cases nextCursor <;> simpa using hmessages

theorem DiscoveryMethod.renderable_project {method : DiscoveryMethod} {providerId : Option Text}
    {payload : Json} {result : Mapping} (h : method.project providerId payload = .ok result) :
    renderableEntries result = true := by
  obtain ⟨catalog, -, h⟩ := bind_eq_ok.mp h
  cases h
  have hitems : ∀ item ∈ method.items catalog providerId, renderableEntries item = true := by
    intro item hitem
    cases method with
    | listProviders =>
        obtain ⟨provider, -, hprovider⟩ := List.mem_filterMap.mp hitem
        exact Catalog.renderable_providerSummary hprovider
    | listModels =>
        obtain ⟨provider, -, hprovider⟩ := List.mem_flatMap.mp hitem
        unfold Catalog.modelsOf at hprovider
        split at hprovider
        · cases hprovider
        · split at hprovider
          · cases hprovider
          · obtain ⟨entry, -, hentry⟩ := List.mem_filterMap.mp hprovider
            exact Catalog.renderable_modelSummary hentry
  have hstrings : ∀ texts : List Text, renderableItems (texts.map Json.str) = true := by
    intro texts
    refine renderableItems_iff.mpr fun j hj => ?_
    obtain ⟨t, -, rfl⟩ := List.mem_map.mp hj
    rfl
  have hdefaults : renderableEntries (catalog.defaultByProvider.map fun e => (e.1, Json.str e.2)) =
      true := by
    refine renderableEntries_iff.mpr fun e he => ?_
    obtain ⟨d, -, rfl⟩ := List.mem_map.mp he
    rfl
  have hall : renderableItems ((method.items catalog providerId).map Json.obj) = true := by
    refine renderableItems_iff.mpr fun j hj => ?_
    obtain ⟨item, hitem, rfl⟩ := List.mem_map.mp hj
    exact hitems item hitem
  simp [hall, hdefaults, hstrings]

theorem renderable_of_field? {m : Mapping} {key : String} {j : Json}
    (hm : renderableEntries m = true) (h : field? m key = some j) : renderable j = true := by
  unfold field? at h
  split at h
  · cases h
  · exact renderable_of_get? hm h

/-- The summaries of the workspace methods let a number through where the payload has it. -/
theorem renderable_itemSummary {kind required : String} {shown : List String} {raw item : Json}
    (hraw : renderable raw = true) (h : itemSummary kind required shown raw = .ok item) :
    renderable item = true := by
  cases raw with
  | obj m =>
      have hpicked : ∀ keys : List String, renderableEntries (pickSummaryFields m keys) = true := by
        intro keys
        refine renderableEntries_iff.mpr fun e he => ?_
        obtain ⟨key, -, he⟩ := List.mem_flatMap.mp he
        refine renderableEntries_iff.mp (renderable_optionalEntry ?_) e he
        intro j hj
        exact renderable_of_field? hraw hj
      simp only [itemSummary] at h
      split at h
      · cases h
        exact hpicked shown
      · cases h
  | null | bool b | int n | float lit isZero | str s | arr items => cases h

section Payloads

variable {summary : Json → Except Text Json} {payload : Json} {result : Mapping}

theorem renderableItems_mapM
    (hsummary : ∀ {raw item}, renderable raw = true → summary raw = .ok item →
      renderable item = true) {raws items : List Json} (hraws : renderableItems raws = true)
    (h : raws.mapM summary = .ok items) : renderableItems items = true := by
  induction raws generalizing items with
  | nil =>
      cases h
      rfl
  | cons raw raws ih =>
      rw [renderableItems, Bool.and_eq_true] at hraws
      rw [List.mapM_cons] at h
      obtain ⟨item, hitem, h⟩ := bind_eq_ok.mp h
      obtain ⟨rest, hrest, h⟩ := bind_eq_ok.mp h
      cases h
      simp [hsummary hraws.1 hitem, ih hraws.2 hrest]

theorem renderable_itemPayload
    (hsummary : ∀ {raw item}, renderable raw = true → summary raw = .ok item →
      renderable item = true) (hpayload : renderable payload = true)
    (h : itemPayload summary payload = .ok result) : renderableEntries result = true := by
  cases payload with
  | null =>
      cases h
      rfl
  | obj m =>
      obtain ⟨item, hitem, h⟩ := bind_eq_ok.mp h
      cases h
      simp [hsummary hpayload hitem]
  | bool b | int n | float lit isZero | str s | arr items => cases h

theorem renderable_listPayload
    (hsummary : ∀ {raw item}, renderable raw = true → summary raw = .ok item →
      renderable item = true) (hpayload : renderable payload = true)
    (h : listPayload summary payload = .ok result) : renderableEntries result = true := by
  cases payload with
  | arr raws =>
      obtain ⟨items, hitems, h⟩ := bind_eq_ok.mp h
      cases h
      simp [renderableItems_mapM hsummary hpayload hitems]
  | null | bool b | int n | float lit isZero | str s | obj m => cases h

theorem WorkspaceMethod.renderable_normalizeResponsePayload {method : WorkspaceMethod}
    (hpayload : renderable payload = true)
    (h : method.normalizeResponsePayload payload = .ok result) : renderableEntries result = true := by
  cases method with
  | listProjects | listWorkspaces | listWorktrees =>
      exact renderable_listPayload renderable_itemSummary hpayload h
  | getCurrentProject | createWorktree | createWorkspace | removeWorkspace =>
      exact renderable_itemPayload renderable_itemSummary hpayload h
  | removeWorktree | resetWorktree =>
      cases payload with
      | bool b =>
          cases h
          rfl
      | null | int n | float lit isZero | str s | arr items | obj m => cases h

end Payloads

/-- What is told of an interrupt but its details can be rendered. -/
theorem InterruptQueryMethod.renderable_item {b : Store.InterruptRequestBinding}
    (h : ∀ details, b.details = some details → renderableEntries details = true) :
    renderable (item b) = true := by
  have hnull : ∀ t : Option Text, renderable (orNull t) = true := by
    intro t
    cases t <;> rfl
  unfold item
  cases hdetails : b.details with
  | none => simp [hnull]
  | some details => simp [hnull, h details hdetails]

/-! ## §2  Requests to a session -/

section Sessions

variable {client : UpstreamClient} {routing : Routing}

theorem ControlMethod.yields_messageResult (endpoint : String) (sessionId : Text) (raw : Json) :
    Yields (fun result => renderableEntries result = true) (messageResult endpoint sessionId raw) := by
  unfold messageResult
  split
  · rename_i item hitem
    refine yields_returns.mpr ?_
    simp [renderable_asA2aMessage hitem]
  · exact yields_raises _

theorem ControlMethod.yields_invoke (method : ControlMethod) (p : ControlPlan) :
    Yields (fun result => renderableEntries result = true) (method.invoke client p) := by
  cases method with
  | promptAsync => exact Yields.bind fun _ => yields_returns.mpr rfl
  | command | shell => exact Yields.bind fun raw => yields_messageResult _ _ raw

/-- The result of the operation can be rendered. -/
def LifecycleOutcome.Renderable (outcome : LifecycleOutcome) : Prop :=
  renderableEntries outcome.result = true

theorem renderable_itemsResult {items : List Json} (h : renderableItems items = true) :
    (itemsResult items).Renderable := by
  simpa [LifecycleOutcome.Renderable, itemsResult] using h

theorem yields_orValueError {α : Type} (x : Except Text α) :
    Yields (fun a => x = .ok a) (orValueError x) := by
  cases x with
  | error text => exact yields_raises _
  | ok a => exact yields_returns.mpr rfl

theorem renderable_summaryResult (raw : Json) :
    Yields LifecycleOutcome.Renderable (summaryResult raw) := by
  refine (yields_orValueError _).seq ?_
  rintro ⟨sessionId, item⟩ hsummary
  refine yields_returns.mpr ?_
  simpa [LifecycleOutcome.Renderable] using renderable_normalizeSessionSummary hsummary

theorem renderable_itemResult (endpoint kind : String) {item : Option Json}
    (h : ∀ j, item = some j → renderable j = true) :
    Yields LifecycleOutcome.Renderable (itemResult endpoint kind item) := by
  cases item with
  | none => exact yields_raises _
  | some item =>
      refine yields_returns.mpr ?_
      simpa [LifecycleOutcome.Renderable] using h item rfl

theorem renderable_extracted {kind : String} {raw : Json} {f : Json → Option Json}
    (hf : ∀ j item, f j = some item → renderable item = true) {items : List Json}
    (h : (do return (← extractRawItems kind raw).filterMap f : Except Text (List Json)) = .ok items) :
    renderableItems items = true := by
  obtain ⟨raws, -, h⟩ := bind_eq_ok.mp h
  cases h
  exact renderableItems_filterMap hf raws

theorem LifecycleOperation.renderable_invoke {operation : LifecycleOperation}
    (h : operation ≠ .sessionStatus) :
    Yields LifecycleOutcome.Renderable (operation.invoke client routing) := by
  cases operation with
  | sessionStatus => exact absurd rfl h
  | getSession s =>
      exact Yields.bind fun _ => renderable_itemResult _ _ fun _ => renderable_asA2aSessionTask
  | getSessionMessage s messageId =>
      exact Yields.bind fun _ => renderable_itemResult _ _ fun _ => renderable_asA2aMessage
  | getSessionChildren s =>
      refine Yields.bind fun raw => (yields_orValueError _).seq fun items _ => ?_
      refine yields_returns.mpr (renderable_itemsResult ?_)
      exact renderableItems_filterMap (fun _ _ => renderable_asA2aSessionTask) items
  | getSessionTodo s =>
      refine Yields.bind fun raw => (yields_orValueError _).seq fun items hitems => ?_
      refine yields_returns.mpr (renderable_itemsResult ?_)
      exact renderable_extracted (fun _ _ => renderable_todoItem) hitems
  | getSessionDiff s messageId =>
      refine Yields.bind fun raw => (yields_orValueError _).seq fun items hitems => ?_
      refine yields_returns.mpr (renderable_itemsResult ?_)
      exact renderable_extracted (fun _ _ => renderable_diffItem) hitems
  | forkSession s request =>
      refine Yields.bind fun raw => (yields_orValueError _).seq ?_
      rintro ⟨sessionId, item⟩ hsummary
      refine yields_returns.mpr ?_
      simpa [LifecycleOutcome.Renderable] using renderable_normalizeSessionSummary hsummary
  | summarizeSession s request => exact Yields.bind fun _ => yields_returns.mpr rfl
  | shareSession s | unshareSession s | revertSession s request | unrevertSession s =>
      exact Yields.bind fun raw => renderable_summaryResult raw

end Sessions

/-! ## §3  The `try` statements -/

/-- If there is a result, it can be rendered. -/
def Sendable (outcome : Except RpcError Mapping) : Prop :=
  ∀ result, outcome = .ok result → renderableEntries result = true

theorem sendable_error (e : RpcError) : Sendable (.error e) := by
  rintro result ⟨⟩

theorem yields_exceptException {α : Type} {P : α → Prop} {p : Action α} {h : Raised → Action α}
    (hp : Yields P p) (hh : ∀ x, Yields P (h x)) : Yields P (exceptException p h) := by
  refine hp.tryCatch fun x => ?_
  split
  · exact yields_raises x
  · exact hh x

theorem yields_within {α β : Type} {P : α → Prop} {Q : β → Prop} {g : SessionClaimGuard}
    {first : Action α} {second : α → Action β} (hfirst : Yields P first)
    (hsecond : ∀ a, P a → Yields Q (second a)) : Yields Q (g.within first second) := by
  unfold SessionClaimGuard.within
  refine Yields.bind fun g => Yields.seq (Yields.ending (P := fun x => P x.1) ?_) ?_
  · exact hfirst.seq fun a ha => Yields.bind fun g => yields_returns.mpr ha
  · rintro (x | ⟨a, g⟩) hr
    · exact (yields_raises x).andFinally
    · exact (hsecond a (hr _ rfl)).andFinally

/-- A `try` statement around the guard, where the body makes results that can be rendered. -/
theorem yields_guarded {α : Type} {P : α → Prop} {g : SessionClaimGuard} {first : Action α}
    {second : α → Action Mapping} {h : Raised → Action (Except RpcError Mapping)}
    (hfirst : Yields P first)
    (hsecond : ∀ a, P a → Yields (fun result => renderableEntries result = true) (second a))
    (hh : ∀ x, Yields Sendable (h x)) :
    Yields Sendable (exceptException (do return .ok (← g.within first second)) h) := by
  refine yields_exceptException (Yields.seq (yields_within hfirst hsecond) ?_) hh
  intro result hresult
  refine yields_returns.mpr ?_
  rintro _ ⟨⟩
  exact hresult

theorem ControlMethod.yields_perform {client : UpstreamClient} {identity : Option Text}
    (method : ControlMethod) (p : ControlPlan) :
    Yields Sendable (method.perform client identity p) := by
  refine yields_guarded (method.yields_invoke p) (fun result hresult => ?_) fun x => ?_
  · exact Yields.bind fun _ => yields_returns.mpr hresult
  · exact Yields.bind fun _ => yields_returns.mpr (sendable_error _)

theorem LifecycleOperation.yields_perform {client : UpstreamClient} {identity : Option Text}
    {routing : Routing} {operation : LifecycleOperation} (h : operation ≠ .sessionStatus) :
    Yields Sendable (operation.perform client identity routing) := by
  refine yields_guarded (renderable_invoke h) (fun outcome houtcome => ?_) fun x => ?_
  · exact Yields.bind fun _ => yields_returns.mpr houtcome
  · exact yields_returns.mpr (sendable_error _)

theorem yields_performCallback {client : UpstreamClient} (requestId : Text) (call : UpstreamCall) :
    Yields Sendable (performCallback client requestId call) := by
  refine yields_exceptException ?_ fun x => ?_
  · refine Yields.bind fun _ => Yields.bind fun _ => yields_returns.mpr ?_
    rintro _ ⟨⟩
    rfl
  · unfold callbackException
    split
    · exact yields_returns.mpr (sendable_error _)
    · split
      · exact Yields.bind fun _ => yields_returns.mpr (sendable_error _)
      · exact yields_returns.mpr (sendable_error _)
    · exact yields_returns.mpr (sendable_error _)
    · exact yields_returns.mpr (sendable_error _)
    · exact yields_returns.mpr (sendable_error _)

end OpencodeA2a.Extension
