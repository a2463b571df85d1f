import OpencodeA2a.Execution.RequestMetadata
import OpencodeA2a.Session.CachedSessions

/-!
# The key a session is cached under

`execute` appends the workspace, or the directory that was asked for, to the context id,
which is the client's; the session manager caches under the identity and this text.
-/

namespace OpencodeA2a.Execution

open OpencodeA2a.Stream OpencodeA2a.Server OpencodeA2a.Session

/-! ## §1  Targets -/

/-- What an execution works on, apart from its context. -/
inductive BindingTarget where
  | unspecified
  | workspace (id : Text)
  | directory (path : Text)
deriving DecidableEq

/-- The target of an execution, and of its key: a directory counts where it was asked for. -/
def bindingTarget (context : RequestContext) (binding : PreparedBinding) : BindingTarget :=
  match binding.workspaceId with
  | some id => .workspace id
  | none =>
      match (callerFields context).requestedDir, binding.directory with
      | some _, some path => if path.Blank then .unspecified else .directory path
      | _, _ => .unspecified

def BindingTarget.suffix : BindingTarget → Text
  | unspecified => []
  | workspace id => "::workspace:".toList ++ id
  | directory path => "::directory:".toList ++ path.strip

@[simp] theorem BindingTarget.suffix_unspecified : suffix .unspecified = [] := rfl

@[simp] theorem BindingTarget.suffix_workspace (id : Text) :
    suffix (.workspace id) = "::workspace:".toList ++ id := rfl

@[simp] theorem BindingTarget.suffix_directory (path : Text) :
    suffix (.directory path) = "::directory:".toList ++ path.strip := rfl

/-- `cache_key` -/
def cacheKey (a : Identity) (binding : PreparedBinding) : Key :=
  (a, String.ofList binding.sessionBindingContextId)

theorem extractFirstNamespacedString_stripped {sources : List Json} {namespace' : String}
    {path : List String} {value : Text}
    (h : extractFirstNamespacedString sources namespace' path = some value) :
    nonempty? value = some value := by
  induction sources with
  | nil => cases h
  | cons source sources ih =>
      unfold extractFirstNamespacedString at h
      split at h
      · rename_i value' hfound
        obtain rfl := Option.some.inj h
        obtain ⟨t, -, ht⟩ := Option.bind_eq_some_iff.mp hfound
        obtain ⟨rfl, hblank⟩ := nonempty?_eq_some ht
        unfold nonempty?
        rw [Text.strip_strip, if_neg (by rwa [← Text.blank_iff])]
      · exact ih h

variable {resolveDirectory : Option Text → Except Text (Option Text)}
  {context context' : RequestContext} {binding binding' : PreparedBinding}

/-- The fields of a prepared execution. -/
theorem prepareBinding_eq_ok (h : prepareBinding resolveDirectory context = .ok binding) :
    binding.workspaceId = (callerFields context).workspaceId ∧
      binding.sessionBindingContextId = buildSessionBindingContextId context.contextId
        binding.directory binding.workspaceId (callerFields context).requestedDir.isSome := by
  unfold prepareBinding at h
  simp only at h
  split at h <;> try cases h
  all_goals
    split at h
    · cases hresolved : resolveDirectory (callerFields context).requestedDir with
      | error e =>
          rw [hresolved] at h
          cases h
      | ok directory =>
          rw [hresolved] at h
          cases h
          exact ⟨rfl, rfl⟩
    · cases h
      exact ⟨rfl, rfl⟩

theorem sessionBindingContextId_eq (h : prepareBinding resolveDirectory context = .ok binding) :
    binding.sessionBindingContextId =
      context.contextId ++ (bindingTarget context binding).suffix := by
  obtain ⟨hworkspace, hkey⟩ := prepareBinding_eq_ok h
  rw [hkey]
  unfold buildSessionBindingContextId bindingTarget
  cases hid : binding.workspaceId with
  | some id =>
      have hstripped : nonempty? id = some id :=
        extractFirstNamespacedString_stripped (hworkspace.symm.trans hid)
      simp only [Option.bind_some, hstripped, BindingTarget.suffix_workspace, List.append_assoc]
  | none =>
      cases (callerFields context).requestedDir with
      | none => simp
      | some requested =>
          cases binding.directory with
          | none => simp
          | some path =>
              by_cases hblank : path.Blank
              · have hnone : nonempty? path = none := nonempty?_eq_none.mpr hblank
                simp [hnone, hblank]
              · have hsome : nonempty? path = some path.strip := by
                  unfold nonempty?
                  rw [if_neg (by rwa [← Text.blank_iff])]
                simp [hsome, hblank]

/-! ## §2  When two keys are one -/

variable {c c' : Text} {t t' : BindingTarget}

/-- Targets with one suffix are the same, or directories that differ in blanks around them. -/
theorem suffix_eq_iff (h : t ≠ t') : t.suffix = t'.suffix ↔
    ∃ path path', t = .directory path ∧ t' = .directory path' ∧ path.strip = path'.strip := by
  constructor
  · intro hsuffix
    cases t <;> cases t' <;> simp_all
  · rintro ⟨path, path', rfl, rfl, hstrip⟩
    rw [BindingTarget.suffix_directory, BindingTarget.suffix_directory, hstrip]

/-- The context `c` is `c'` with a text behind it that `c'`'s suffix begins with, and the suffix
of `c` is the rest of it. -/
def SplitsFrom (c : Text) (t : BindingTarget) (c' : Text) (t' : BindingTarget) : Prop :=
  ∃ x, x ≠ [] ∧ c = c' ++ x ∧ t'.suffix = x ++ t.suffix

/-- What keeps the keys of two executions apart. -/
structure KeptApart (c : Text) (t : BindingTarget) (c' : Text) (t' : BindingTarget) : Prop where
  left : ¬ SplitsFrom c t c' t'
  right : ¬ SplitsFrom c' t' c t
  blanks : c = c' → ∀ path path', t = .directory path → t' = .directory path' →
    path.strip ≠ path'.strip

theorem append_suffix_eq_iff (h : (c, t) ≠ (c', t')) :
    c ++ t.suffix = c' ++ t'.suffix ↔ ¬ KeptApart c t c' t' := by
  rw [List.append_eq_append_iff]
  constructor
  · rintro (⟨x, rfl, hx⟩ | ⟨x, rfl, hx⟩) happart
    · by_cases hnil : x = []
      · subst hnil
        rw [List.append_nil] at h
        have hne : t ≠ t' := fun heq => h (by rw [heq])
        obtain ⟨path, path', hpath, hpath', hstrip⟩ := (suffix_eq_iff hne).mp hx
        exact happart.blanks (List.append_nil c).symm path path' hpath hpath' hstrip
      · exact happart.right ⟨x, hnil, rfl, hx⟩
    · by_cases hnil : x = []
      · subst hnil
        rw [List.append_nil] at h
        have hne : t ≠ t' := fun heq => h (by rw [heq])
        obtain ⟨path, path', hpath, hpath', hstrip⟩ := (suffix_eq_iff hne).mp hx.symm
        exact happart.blanks (List.append_nil c') path path' hpath hpath' hstrip
      · exact happart.left ⟨x, hnil, rfl, hx⟩
  · intro hnot
    by_contra hno
    apply hnot
    constructor
    · rintro ⟨x, -, hc, hx⟩
      exact hno (Or.inr ⟨x, hc, hx⟩)
    · rintro ⟨x, -, hc, hx⟩
      exact hno (Or.inl ⟨x, hc, hx⟩)
    · rintro rfl path path' rfl rfl hstrip
      refine hno (Or.inl ⟨[], (List.append_nil c).symm, ?_⟩)
      rw [BindingTarget.suffix_directory, BindingTarget.suffix_directory, hstrip, List.nil_append]

/-! ## §3  Sharing -/

/-- In no run does a process at work on the one key find what a process at work on the other
key has cached, nor join its creation. -/
def NeverShared (k k' : Key) : Prop :=
  ∀ (ι : Type) [DecidableEq ι] (repo : Repository) (ttl : Int) (acts : List (Action ι))
    (st : State ι), Machine.run State.step (State.initial ι repo ttl) acts = some st →
    ∀ p q pr qr, st.procs p = some pr → st.procs q = some qr → qr.On k → pr.On k' →
      ¬ (st.Finds (writesOf repo ttl acts) q p ∨ st.Joins q p)

theorem neverShared {k k' : Key} (h : k ≠ k') : NeverShared k k' := by
  intro ι _ repo ttl acts st hrun p q pr qr hp hq hk hk' hshare
  exact h (one_key hrun hp hq hshare hk hk')

/-- Two executions of an identity whose contexts or targets differ are cached under different
keys, and never share a session through the cache, exactly if neither context continues the
other by what the suffix of its target begins with, nor are two directories of one context the
same up to blanks. -/
theorem binding_keys_apart_iff (h : prepareBinding resolveDirectory context = .ok binding)
    (h' : prepareBinding resolveDirectory context' = .ok binding')
    (hne : (context.contextId, bindingTarget context binding) ≠
      (context'.contextId, bindingTarget context' binding')) (a : Identity) :
    (cacheKey a binding ≠ cacheKey a binding' ∧
        NeverShared (cacheKey a binding) (cacheKey a binding') ∧
        NeverShared (cacheKey a binding') (cacheKey a binding)) ↔
      KeptApart context.contextId (bindingTarget context binding)
        context'.contextId (bindingTarget context' binding') := by
  have hkey : cacheKey a binding = cacheKey a binding' ↔
      ¬ KeptApart context.contextId (bindingTarget context binding)
        context'.contextId (bindingTarget context' binding') := by
    rw [← append_suffix_eq_iff hne, ← sessionBindingContextId_eq h, ← sessionBindingContextId_eq h']
    unfold cacheKey
    rw [Prod.mk.injEq, String.ofList_inj]
    exact and_iff_right rfl
  constructor
  · rintro ⟨hkeys, -⟩
    by_contra hnot
    exact hkeys (hkey.mpr hnot)
  · intro happart
    have hkeys : cacheKey a binding ≠ cacheKey a binding' := fun heq => hkey.mp heq happart
    exact ⟨hkeys, neverShared hkeys, neverShared hkeys.symm⟩

/-- A request for a context, with a workspace or without. -/
def workspaceRequest (contextId : String) (workspaceId : Option String) : RequestContext where
  contextId := contextId.toList
  metadata :=
    match workspaceId with
    | some id => .obj [("opencode".toList,
        .obj [("workspace".toList, .obj [("id".toList, .str id.toList)])])]
    | none => .null
  message := none

/-- The sandbox has one directory. -/
def oneDirectory (_ : Option Text) : Except Text (Option Text) := .ok (some "/srv".toList)

theorem workspace_has_its_own_key :
    ∃ binding binding',
      prepareBinding oneDirectory (workspaceRequest "context-A" (some "w")) = .ok binding ∧
      prepareBinding oneDirectory (workspaceRequest "context-A" none) = .ok binding' ∧
      cacheKey user1 binding ≠ cacheKey user1 binding' ∧
      NeverShared (cacheKey user1 binding) (cacheKey user1 binding') ∧
      NeverShared (cacheKey user1 binding') (cacheKey user1 binding) := by
  have hbound : prepareBinding oneDirectory (workspaceRequest "context-A" (some "w")) = .ok _ := rfl
  have hplain : prepareBinding oneDirectory (workspaceRequest "context-A" none) = .ok _ := rfl
  refine ⟨_, _, hbound, hplain, (binding_keys_apart_iff hbound hplain (by decide) user1).mpr ?_⟩
  constructor
  · rintro ⟨x, hx, hc, -⟩
    exact hx (List.self_eq_append_right.mp hc)
  · rintro ⟨x, hx, hc, -⟩
    exact hx (List.self_eq_append_right.mp hc)
  · intro _ path path' hpath
    cases hpath

/-- A run for the context `context-A::workspace:w`, and one for `context-A` in the workspace
`w`, up to its read of the cache. -/
def collidingRuns : List (Action ℕ) :=
  [.spawn 0 user1 (.chat "context-A::workspace:w" none), .step 0, .step 0, .taskReturn 0 session1,
    .step 0, .step 0, .step 0, .step 0, .step 0, .step 0, .answer 0 none, .finish 0,
    .spawn 1 user1 (.chat "context-A::workspace:w" none), .step 1]

def collided : State ℕ :=
  Machine.after State.step (State.initial ℕ Repository.empty 30) collidingRuns (by rfl)

/-- Without the condition the claim is false: one context is bound to no workspace, the other
one to `w`, and they share a session. -/
theorem colliding_contexts_share_session :
    ∃ binding binding',
      prepareBinding oneDirectory (workspaceRequest "context-A::workspace:w" none) = .ok binding ∧
      prepareBinding oneDirectory (workspaceRequest "context-A" (some "w")) = .ok binding' ∧
      bindingTarget (workspaceRequest "context-A::workspace:w" none) binding ≠
        bindingTarget (workspaceRequest "context-A" (some "w")) binding' ∧
      cacheKey user1 binding = cacheKey user1 binding' ∧
      ¬ NeverShared (cacheKey user1 binding) (cacheKey user1 binding') := by
  refine ⟨_, _, rfl, rfl, by decide, rfl, ?_⟩
  intro hnever
  refine hnever ℕ Repository.empty 30 collidingRuns collided (Machine.run_after (by rfl)) 1 0 _ _
    rfl rfl ⟨rfl, rfl⟩ ⟨rfl, rfl⟩ (Or.inl ?_)
  exact ⟨_, _, session1, _, rfl, rfl, rfl, rfl⟩

end OpencodeA2a.Execution
