import OpencodeA2a.Library.Dict
import OpencodeA2a.Library.Machine
import OpencodeA2a.Stream.Json
import Mathlib.Data.List.Sort

/-!
# The cache of outbound clients

`A2AClientManager` of `server/client_manager.py` with its cache on. What a block does under
the manager's lock is one step: nobody awaits with the lock taken, so that it is always free.
The clients that an eviction takes out of the cache are closed outside the lock, one after
the other.
-/

namespace OpencodeA2a.Server

open OpencodeA2a.Stream (Text)

/-! ## §1  Entries and eviction -/

/-- `_ClientCacheEntry`; clients are numbered as they are made. -/
structure CacheEntry where
  client : ℕ
  lastUsed : ℤ
  expiresAt : Option ℤ
  borrowCount : ℕ
  pendingEviction : Bool

structure CacheSettings where
  cacheTtlSeconds : ℤ
  cacheMaxsize : ℕ
  positive : 0 < cacheMaxsize

abbrev ClientCache := Dict Text CacheEntry

namespace CacheEntry

variable (e : CacheEntry)

def expired (now : ℤ) : Bool := e.expiresAt.any fun t => t ≤ now

/-- `entry.borrow_count > 0 or entry.client.is_busy()`, with the number of requests that each
client has in flight -/
def inUse (busy : ℕ → ℕ) : Bool := decide (0 < e.borrowCount) || decide (0 < busy e.client)

def mark : CacheEntry := { e with pendingEviction := true }

end CacheEntry

/-- The clients of a cache. -/
def ClientCache.cached (d : ClientCache) : List ℕ := d.items.map fun x => x.2.client

section Evict

variable (settings : CacheSettings) (busy : ℕ → ℕ) (now : ℤ) (protectedKeys : List Text)

/-- What the first loop of `_evict_locked` leaves of an entry. -/
def sweep (key : Text) (e : CacheEntry) : Option CacheEntry :=
  if !e.expired now && !e.pendingEviction then some e
  else if key ∈ protectedKeys ∨ e.inUse busy = true then some e.mark
  else none

/-- The clients of the entries that the first loop takes out. -/
def sweptClients (d : ClientCache) : List ℕ :=
  (d.items.filter fun x => (sweep busy now protectedKeys x.1 x.2).isNone).map fun x => x.2.client

/-- The second loop of `_evict_locked`, over the entries from the one used last to the one
used first. -/
def evictLru : List (Text × CacheEntry) → ClientCache → ClientCache × List ℕ
  | [], d => (d, [])
  | (key, e) :: rest, d =>
      if d.items.length ≤ settings.cacheMaxsize then (d, [])
      else if key ∈ protectedKeys then evictLru rest d
      else if e.inUse busy then evictLru rest (d.set key e.mark)
      else
        let (d', toClose) := evictLru rest (d.pop key)
        (d', e.client :: toClose)

/-- `_evict_locked` -/
def evictLocked (d : ClientCache) : ClientCache × List ℕ :=
  let toClose := sweptClients busy now protectedKeys d
  let d := d.updateAll (sweep busy now protectedKeys)
  if d.items.length ≤ settings.cacheMaxsize then (d, toClose)
  else if d.items.any fun x => x.2.pendingEviction then (d, toClose)
  else
    let byUse := d.items.insertionSort fun a b => a.2.lastUsed ≤ b.2.lastUsed
    let (d, more) := evictLru settings busy protectedKeys byUse d
    (d, toClose ++ more)

end Evict

/-! ## §2  Borrowing -/

/-- Where a `borrow_client` block awaits. -/
inductive BorrowStage where
  /-- `validate_agent_url` -/
  | validating
  /-- `_close_clients` before the `yield`, with the clients not closed yet -/
  | opening (client : ℕ) (toClose : List ℕ)
  /-- the body of the block -/
  | opened (client : ℕ)
  /-- `_close_clients` after the body -/
  | closing (toClose : List ℕ)
  | ended

structure BorrowBlock where
  url : Text
  stage : BorrowStage := .validating

structure ClientManager where
  clients : ClientCache := .empty
  /-- how many clients have been made -/
  created : ℕ := 0
  /-- the requests in flight, by client -/
  busy : ℕ → ℕ := fun _ => 0
  blocks : List BorrowBlock := []
  /-- the clients whose `close` has returned -/
  closed : List ℕ := []

inductive BlockMove where
  /-- the URL is admitted -/
  | admitted (now : ℤ)
  /-- `validate_agent_url` raises or is cancelled -/
  | refused
  /-- the close that the block awaits returns -/
  | closes
  /-- the close that the block awaits raises or is cancelled -/
  | closeFails
  /-- the body ends, or raises -/
  | leave (now : ℤ)
  /-- the body starts a request -/
  | request

inductive BorrowAction where
  /-- `borrow_client(agent_url)` is called -/
  | call (url : Text)
  | move (b : ℕ) (a : BlockMove)
  /-- a request of the client ends -/
  | answered (client : ℕ)
  /-- `close_all` takes all clients out of the cache and goes on to close them -/
  | closeAll

/-- The body comes once all is closed. -/
def BorrowStage.toBody (client : ℕ) (toClose : List ℕ) : BorrowStage :=
  if toClose = [] then .opened client else .opening client toClose

def BorrowStage.toEnd (toClose : List ℕ) : BorrowStage :=
  if toClose = [] then .ended else .closing toClose

section Borrow

variable (settings : CacheSettings) (busy : ℕ → ℕ) (now : ℤ) (url : Text)

/-- `None` without a time to live -/
def nextExpiry : Option ℤ :=
  if settings.cacheTtlSeconds ≤ 0 then none else some (now + settings.cacheTtlSeconds)

/-- The entry of the URL, once it has expired, is marked or taken out. -/
def expireOwn (d : ClientCache) : ClientCache × List ℕ :=
  match d.get? url with
  | none => (d, [])
  | some e =>
      if e.expired now then
        if e.inUse busy then (d.set url e.mark, []) else (d.pop url, [e.client])
      else (d, [])

/-- The entry of the URL, new or refreshed, is counted as borrowed; `created` is the number of
clients made so far. -/
def acquireEntry (created : ℕ) (d : ClientCache) : ClientCache × ℕ × ℕ :=
  match d.get? url with
  | none => (d.set url ⟨created, now, nextExpiry settings now, 1, false⟩, created, created + 1)
  | some e =>
      (d.set url ⟨e.client, now, nextExpiry settings now, e.borrowCount + 1, false⟩, e.client,
        created)

/-- The count is given back, if the entry is still the one that was borrowed. -/
def giveBack (client : ℕ) (d : ClientCache) : ClientCache :=
  match d.get? url with
  | none => d
  | some current =>
      if current.client = client then
        d.set url ⟨client, now, nextExpiry settings now, current.borrowCount - 1,
          current.pendingEviction⟩
      else d

end Borrow

namespace ClientManager

variable (settings : CacheSettings) (M : ClientManager)

def goto (b : ℕ) (block : BorrowBlock) (stage : BorrowStage) : ClientManager :=
  { M with blocks := M.blocks.set b { block with stage := stage } }

/-- From the lock to the first close, or to the `yield`. -/
def borrow (b : ℕ) (block : BorrowBlock) (now : ℤ) : ClientManager :=
  let (d, toClose) := expireOwn M.busy now block.url M.clients
  let (d, toClose') := evictLocked settings M.busy now [block.url] d
  let (d, client, created) := acquireEntry settings now block.url M.created d
  let (d, toClose'') := evictLocked settings M.busy now [block.url] d
  { M with clients := d, created := created }.goto b block
    (.toBody client (toClose ++ toClose' ++ toClose''))

/-- The `finally` clause up to its first close. -/
def release (b : ℕ) (block : BorrowBlock) (client : ℕ) (now : ℤ) : ClientManager :=
  let (d, toClose) := evictLocked settings M.busy now []
    (giveBack settings now block.url client M.clients)
  { M with clients := d }.goto b block (.toEnd toClose)

def bump (client : ℕ) : ClientManager :=
  { M with busy := Function.update M.busy client (M.busy client + 1) }

/-- A block goes on. -/
def moveBlock (b : ℕ) (block : BorrowBlock) (a : BlockMove) : Option ClientManager :=
  match block.stage, a with
  | .validating, .admitted now => some (M.borrow settings b block now)
  | .validating, .refused => some (M.goto b block .ended)
  | .opening client (c :: toClose), .closes =>
      some ({ M with closed := M.closed ++ [c] }.goto b block (.toBody client toClose))
  | .closing (c :: toClose), .closes =>
      some ({ M with closed := M.closed ++ [c] }.goto b block (.toEnd toClose))
  | .opening _ _, .closeFails | .closing _, .closeFails => some (M.goto b block .ended)
  | .opened client, .leave now => some (M.release settings b block client now)
  | .opened client, .request => some (M.bump client)
  | _, _ => none

def step : BorrowAction → Option ClientManager
  | .call url => some { M with blocks := M.blocks ++ [{ url := url }] }
  | .move b a => M.blocks[b]?.bind fun block => M.moveBlock settings b block a
  | .answered client =>
      if 0 < M.busy client then
        some { M with busy := Function.update M.busy client (M.busy client - 1) }
      else none
  | .closeAll =>
      some { M with
        clients := .empty
        blocks := M.blocks ++ [{ url := [], stage := .toEnd (ClientCache.cached M.clients) }] }

end ClientManager

/-- What a block can do. -/
inductive BlockMoves (settings : CacheSettings) (M : ClientManager) (b : ℕ) (block : BorrowBlock) :
    BlockMove → ClientManager → Prop
  | enter (now : ℤ) (hs : block.stage = .validating) :
      BlockMoves settings M b block (.admitted now) (M.borrow settings b block now)
  | refuse (hs : block.stage = .validating) :
      BlockMoves settings M b block .refused (M.goto b block .ended)
  | closeFirst (client c : ℕ) (toClose : List ℕ) (hs : block.stage = .opening client (c :: toClose)) :
      BlockMoves settings M b block .closes
        ({ M with closed := M.closed ++ [c] }.goto b block (.toBody client toClose))
  | closeLast (c : ℕ) (toClose : List ℕ) (hs : block.stage = .closing (c :: toClose)) :
      BlockMoves settings M b block .closes
        ({ M with closed := M.closed ++ [c] }.goto b block (.toEnd toClose))
  | failFirst (client : ℕ) (toClose : List ℕ) (hs : block.stage = .opening client toClose) :
      BlockMoves settings M b block .closeFails (M.goto b block .ended)
  | failLast (toClose : List ℕ) (hs : block.stage = .closing toClose) :
      BlockMoves settings M b block .closeFails (M.goto b block .ended)
  | leave (client : ℕ) (now : ℤ) (hs : block.stage = .opened client) :
      BlockMoves settings M b block (.leave now) (M.release settings b block client now)
  | request (client : ℕ) (hs : block.stage = .opened client) :
      BlockMoves settings M b block .request (M.bump client)

theorem moveBlock_cases {settings : CacheSettings} {M M' : ClientManager} {b : ℕ}
    {block : BorrowBlock} {a : BlockMove} (h : M.moveBlock settings b block a = some M') :
    BlockMoves settings M b block a M' := by
  unfold ClientManager.moveBlock at h
  split at h <;> rename_i hs
  case h_9 => cases h
  all_goals cases h
  case h_1 => exact .enter _ hs
  case h_2 => exact .refuse hs
  case h_3 => exact .closeFirst _ _ _ hs
  case h_4 => exact .closeLast _ _ hs
  case h_5 => exact .failFirst _ _ hs
  case h_6 => exact .failLast _ hs
  case h_7 => exact .leave _ _ hs
  case h_8 => exact .request _ hs

/-! ## §3  What an eviction does -/

section Evictions

variable {settings : CacheSettings} {busy : ℕ → ℕ} {now : ℤ} {protectedKeys : List Text}
  {d d' d'' : ClientCache} {l l' : List ℕ}

/-- The entry of the same client, with the same count. -/
def CacheEntry.Like (e e' : CacheEntry) : Prop :=
  e'.client = e.client ∧ e'.borrowCount = e.borrowCount

/-- The clients of `l` have been taken out of `d`, none of them in use or protected; the others
are still there. -/
structure Evicted (busy : ℕ → ℕ) (protectedKeys : List Text) (d d' : ClientCache) (l : List ℕ) :
    Prop where
  cached : d.cached.Perm (d'.cached ++ l)
  entries : ∀ key e', d'.get? key = some e' → ∃ e, d.get? key = some e ∧ e.Like e'
  kept : ∀ key e, d.get? key = some e → key ∈ protectedKeys ∨ e.inUse busy = true →
    ∃ e', d'.get? key = some e' ∧ e.Like e'

theorem CacheEntry.Like.inUse {e e' : CacheEntry} (h : e.Like e') : e'.inUse busy = e.inUse busy := by
  unfold CacheEntry.inUse
  rw [h.1, h.2]

theorem Evicted.refl : Evicted busy protectedKeys d d [] := by
  refine ⟨?_, fun key e h => ⟨e, h, rfl, rfl⟩, fun key e h _ => ⟨e, h, rfl, rfl⟩⟩
  rw [List.append_nil]

theorem Evicted.trans (h : Evicted busy protectedKeys d d' l)
    (h' : Evicted busy protectedKeys d' d'' l') : Evicted busy protectedKeys d d'' (l ++ l') := by
  refine ⟨?_, ?_, ?_⟩
  · have hmore := (h'.cached.append_right l)
    refine h.cached.trans (hmore.trans ?_)
    rw [List.append_assoc]
    exact List.perm_append_comm.append_left _
  · intro key e'' he''
    obtain ⟨e', he', hlike'⟩ := h'.entries key e'' he''
    obtain ⟨e, he, hlike⟩ := h.entries key e' he'
    exact ⟨e, he, hlike'.1.trans hlike.1, hlike'.2.trans hlike.2⟩
  · intro key e he huse
    obtain ⟨e', he', hlike⟩ := h.kept key e he huse
    obtain ⟨e'', he'', hlike'⟩ := h'.kept key e' he' (by rwa [hlike.inUse])
    exact ⟨e'', he'', hlike'.1.trans hlike.1, hlike'.2.trans hlike.2⟩

/-! ### The cached clients -/

theorem cached_set {key : Text} {e e' : CacheEntry} (h : d.get? key = some e)
    (hclient : e'.client = e.client) : (ClientCache.cached (d.set key e')).Perm d.cached := by
  have hafter := (Dict.set_perm d key e').map fun x => x.2.client
  have hbefore := (Dict.pop_perm h).map fun x => x.2.client
  rw [List.map_cons] at hafter hbefore
  rw [← hclient] at hbefore
  exact hafter.trans hbefore.symm

theorem cached_set_new {key : Text} (h : d.get? key = none) (e : CacheEntry) :
    (ClientCache.cached (d.set key e)).Perm (e.client :: d.cached) := by
  have hafter := (Dict.set_perm d key e).map fun x => x.2.client
  rw [List.map_cons, Dict.pop_of_none h] at hafter
  exact hafter

theorem cached_pop {key : Text} {e : CacheEntry} (h : d.get? key = some e) :
    d.cached.Perm (ClientCache.cached (d.pop key) ++ [e.client]) := by
  have hbefore := (Dict.pop_perm h).map fun x => x.2.client
  rw [List.map_cons] at hbefore
  exact hbefore.trans (List.perm_append_singleton _ _).symm

/-! ### Both loops -/

theorem evicted_mark {key : Text} {e : CacheEntry} (h : d.get? key = some e) :
    Evicted busy protectedKeys d (d.set key e.mark) [] := by
  refine ⟨?_, ?_, ?_⟩
  · rw [List.append_nil]
    exact (cached_set h (show e.mark.client = e.client from rfl)).symm
  · intro j e' he'
    rw [Dict.get?_set] at he'
    split at he'
    · rename_i hj
      cases he'
      exact ⟨e, hj ▸ h, rfl, rfl⟩
    · exact ⟨e', he', rfl, rfl⟩
  · intro j e' he' _
    rw [Dict.get?_set]
    split
    · rename_i hj
      rw [hj, h] at he'
      cases he'
      exact ⟨_, rfl, rfl, rfl⟩
    · exact ⟨e', he', rfl, rfl⟩

theorem evicted_pop {key : Text} {e : CacheEntry} (h : d.get? key = some e)
    (hprotected : key ∉ protectedKeys) (huse : e.inUse busy = false) :
    Evicted busy protectedKeys d (d.pop key) [e.client] := by
  refine ⟨cached_pop h, ?_, ?_⟩
  · intro j e' he'
    rw [Dict.get?_pop] at he'
    split at he'
    · cases he'
    · exact ⟨e', he', rfl, rfl⟩
  · intro j e' he' hkeep
    have hj : j ≠ key := by
      rintro rfl
      rw [h] at he'
      cases he'
      rcases hkeep with hmem | hinUse
      · exact hprotected hmem
      · rw [huse] at hinUse
        cases hinUse
    exact ⟨e', by rw [Dict.get?_pop_of_ne d hj, he'], rfl, rfl⟩

theorem sweep_like {key : Text} {e e' : CacheEntry}
    (h : sweep busy now protectedKeys key e = some e') : e.Like e' := by
  unfold sweep at h
  split at h
  · cases h
    exact ⟨rfl, rfl⟩
  · split at h
    · cases h
      exact ⟨rfl, rfl⟩
    · cases h

theorem sweep_of_kept {key : Text} {e : CacheEntry}
    (h : key ∈ protectedKeys ∨ e.inUse busy = true) :
    ∃ e', sweep busy now protectedKeys key e = some e' := by
  unfold sweep
  split
  · exact ⟨e, rfl⟩
  · exact ⟨e.mark, rfl⟩

theorem evicted_sweep : Evicted busy protectedKeys d (d.updateAll (sweep busy now protectedKeys))
    (sweptClients busy now protectedKeys d) := by
  refine ⟨?_, ?_, ?_⟩
  · show (d.items.map _).Perm ((d.items.filterMap _).map _ ++ (d.items.filter _).map _)
    induction d.items with
    | nil => exact List.Perm.refl _
    | cons x xs ih =>
        simp only [List.filterMap_cons, List.filter_cons, List.map_cons]
        cases hx : sweep busy now protectedKeys x.1 x.2 with
        | none => exact (ih.cons _).trans List.perm_middle.symm
        | some e' =>
            have hclient : e'.client = x.2.client := (sweep_like hx).1
            simp only [Option.map_some, List.map_cons, hclient, Option.isNone_some,
              Bool.false_eq_true, if_false, List.cons_append]
            exact ih.cons _
  · intro key e' he'
    rw [Dict.get?_updateAll, Option.bind_eq_some_iff] at he'
    obtain ⟨e, he, hsweep⟩ := he'
    exact ⟨e, he, sweep_like hsweep⟩
  · intro key e he hkeep
    obtain ⟨e', he'⟩ := sweep_of_kept hkeep
    rw [Dict.get?_updateAll, he]
    exact ⟨e', he', sweep_like he'⟩

/-- The second loop, over entries that are still in the cache. -/
theorem evicted_lru (byUse : List (Text × CacheEntry)) (hnodup : (byUse.map Prod.fst).Nodup)
    (hthere : ∀ x ∈ byUse, d.get? x.1 = some x.2) :
    Evicted busy protectedKeys d (evictLru settings busy protectedKeys byUse d).1
      (evictLru settings busy protectedKeys byUse d).2 := by
  induction byUse generalizing d with
  | nil => exact Evicted.refl
  | cons x rest ih =>
      obtain ⟨key, e⟩ := x
      rw [List.map_cons, List.nodup_cons] at hnodup
      have hget : d.get? key = some e := hthere (key, e) List.mem_cons_self
      have hrest : ∀ x ∈ rest, d.get? x.1 = some x.2 := fun x hx =>
        hthere x (List.mem_cons_of_mem _ hx)
      have hne : ∀ x ∈ rest, x.1 ≠ key := by
        intro x hx heq
        exact hnodup.1 (List.mem_map.mpr ⟨x, hx, heq⟩)
      rw [evictLru]
      split
      · exact Evicted.refl
      · split
        · exact ih hnodup.2 hrest
        · rename_i hprotected
          split
          · have hafter : ∀ x ∈ rest, (d.set key e.mark).get? x.1 = some x.2 := by
              intro x hx
              rw [Dict.get?_set_of_ne d (hne x hx)]
              exact hrest x hx
            exact (evicted_mark hget).trans (ih hnodup.2 hafter)
          · rename_i huse
            have hafter : ∀ x ∈ rest, (d.pop key).get? x.1 = some x.2 := by
              intro x hx
              rw [Dict.get?_pop_of_ne d (hne x hx)]
              exact hrest x hx
            exact (evicted_pop hget hprotected (Bool.eq_false_iff.mpr huse)).trans
              (ih hnodup.2 hafter)

variable (settings busy now protectedKeys) in
theorem evicted_locked (d : ClientCache) :
    Evicted busy protectedKeys d (evictLocked settings busy now protectedKeys d).1
      (evictLocked settings busy now protectedKeys d).2 := by
  unfold evictLocked
  simp only
  split
  · exact evicted_sweep
  · split
    · exact evicted_sweep
    · refine evicted_sweep.trans (evicted_lru _ ?_ ?_)
      · have hperm := List.perm_insertionSort (fun a b => a.2.lastUsed ≤ b.2.lastUsed)
          (d.updateAll (sweep busy now protectedKeys)).items
        exact (hperm.map Prod.fst).nodup_iff.mpr (Dict.nodup _)
      · intro x hx
        have hmem := (List.mem_insertionSort _).mp hx
        exact Dict.get?_eq_some.mpr hmem

/-! ## §4  How large the cache is after an eviction -/

section Size

variable (busy now)

/-- How many clients of the cache may not be evicted. -/
def ClientCache.inUse (d : ClientCache) : ℕ := d.items.countP fun x => x.2.inUse busy

/-- An entry that has expired or is marked. -/
def CacheEntry.due (e : CacheEntry) : Bool := e.expired now || e.pendingEviction

/-- How many clients of the cache are idle, have not expired and are not marked. -/
def ClientCache.spare (d : ClientCache) : ℕ :=
  d.items.countP fun x => !x.2.inUse busy && !x.2.due now

/-- A client is in use that has expired or is marked. -/
def ClientCache.deferred (d : ClientCache) : Bool :=
  d.items.any fun x => x.2.inUse busy && x.2.due now

variable {busy now}

/-- Without protected keys the first loop takes out what is due and idle, and marks what is due
and in use. -/
theorem sweep_eq (key : Text) (e : CacheEntry) : sweep busy now [] key e =
    if e.due now then if e.inUse busy then some e.mark else none else some e := by
  unfold sweep CacheEntry.due
  cases e.expired now <;> cases e.pendingEviction <;> simp

variable (busy now) in
theorem swept_size (d : ClientCache) :
    (d.updateAll (sweep busy now [])).items.length = d.inUse busy + d.spare busy now ∧
      ClientCache.inUse busy (d.updateAll (sweep busy now [])) = d.inUse busy ∧
      (d.updateAll (sweep busy now [])).items.any (fun x => x.2.pendingEviction) =
        d.deferred busy now := by
  show (d.items.filterMap _).length = d.items.countP _ + d.items.countP _ ∧
    (d.items.filterMap _).countP _ = d.items.countP _ ∧ (d.items.filterMap _).any _ = d.items.any _
  induction d.items with
  | nil => exact ⟨rfl, rfl, rfl⟩
  | cons x xs ih =>
      obtain ⟨hlength, huse, hmarked⟩ := ih
      have hmark : x.2.mark.inUse busy = x.2.inUse busy := rfl
      have hpending : x.2.mark.pendingEviction = true := rfl
      simp only [sweep_eq] at hlength huse hmarked ⊢
      simp only [List.filterMap_cons, List.countP_cons, List.any_cons]
      cases hdue : x.2.due now with
      | false =>
          have hunmarked : x.2.pendingEviction = false := (Bool.or_eq_false_iff.mp hdue).2
          cases hinUse : x.2.inUse busy
          · simp [hinUse, hunmarked, hlength, huse, hmarked]
            omega
          · simp [hinUse, hunmarked, hlength, huse, hmarked]
            omega
      | true =>
          cases hinUse : x.2.inUse busy
          · simp [hlength, huse, hmarked]
          · simp [hmark, hpending, hinUse, hlength, huse]
            omega

variable (settings busy) in
/-- The second loop ends with few enough entries, or with entries in use only. -/
theorem evictLru_size (byUse : List (Text × CacheEntry)) (hnodup : (byUse.map Prod.fst).Nodup)
    (hthere : ∀ x ∈ byUse, d.get? x.1 = some x.2)
    (hall : ∀ key e, d.get? key = some e → e.inUse busy = true ∨ key ∈ byUse.map Prod.fst) :
    (evictLru settings busy [] byUse d).1.items.length ≤ settings.cacheMaxsize ∨
      ∀ x ∈ (evictLru settings busy [] byUse d).1.items, x.2.inUse busy = true := by
  induction byUse generalizing d with
  | nil =>
      right
      intro x hx
      rcases hall x.1 x.2 (Dict.get?_eq_some.mpr hx) with huse | hmem
      · exact huse
      · cases hmem
  | cons x rest ih =>
      obtain ⟨key, e⟩ := x
      rw [List.map_cons, List.nodup_cons] at hnodup
      have hrest : ∀ x ∈ rest, d.get? x.1 = some x.2 ∧ x.1 ≠ key := by
        intro x hx
        refine ⟨hthere x (List.mem_cons_of_mem _ hx), fun heq => ?_⟩
        exact hnodup.1 (List.mem_map.mpr ⟨x, hx, heq⟩)
      have hothers : ∀ key' e', key' ≠ key → d.get? key' = some e' →
          e'.inUse busy = true ∨ key' ∈ rest.map Prod.fst := by
        intro key' e' hne he'
        rcases hall key' e' he' with huse | hmem
        · exact Or.inl huse
        · exact Or.inr ((List.mem_cons.mp hmem).resolve_left hne)
      rw [evictLru]
      split
      · rename_i hlength
        exact Or.inl hlength
      · rw [if_neg List.not_mem_nil]
        split
        · rename_i huse
          refine ih hnodup.2 (fun x hx => ?_) fun key' e' he' => ?_
          · rw [Dict.get?_set_of_ne d (hrest x hx).2, (hrest x hx).1]
          · rw [Dict.get?_set] at he'
            split at he'
            · cases he'
              exact Or.inl huse
            · rename_i hne
              exact hothers key' e' hne he'
        · refine ih hnodup.2 (fun x hx => ?_) fun key' e' he' => ?_
          · rw [Dict.get?_pop_of_ne d (hrest x hx).2, (hrest x hx).1]
          · rw [Dict.get?_pop] at he'
            split at he'
            · cases he'
            · rename_i hne
              exact hothers key' e' hne he'

/-- An eviction leaves at most the maximum, and the clients in use besides, exactly when no
client in use is due, or few enough are idle and not due. -/
theorem evictLocked_size_iff (d : ClientCache) :
    (evictLocked settings busy now [] d).1.items.length ≤
        settings.cacheMaxsize + (evictLocked settings busy now [] d).1.inUse busy ↔
      d.deferred busy now = false ∨ d.spare busy now ≤ settings.cacheMaxsize := by
  obtain ⟨hlength, huse, hmarked⟩ := swept_size busy now d
  unfold evictLocked
  simp only
  split
  · rename_i hsmall
    refine iff_of_true (Nat.le_add_right_of_le hsmall) (Or.inr ?_)
    omega
  · split
    · rename_i hpending
      rw [hmarked] at hpending
      show _ ≤ settings.cacheMaxsize + ClientCache.inUse busy (d.updateAll _) ↔ _
      rw [hlength, huse, hpending]
      simp only [Bool.true_eq_false, false_or]
      omega
    · rename_i hpending
      rw [hmarked, Bool.not_eq_true] at hpending
      refine iff_of_true ?_ (Or.inl hpending)
      have hsize := evictLru_size settings busy
        (d := d.updateAll (sweep busy now []))
        ((d.updateAll (sweep busy now [])).items.insertionSort
          fun a b => a.2.lastUsed ≤ b.2.lastUsed) ?_ ?_ ?_
      · rcases hsize with hfew | hall
        · exact Nat.le_add_right_of_le hfew
        · refine Nat.le_add_left_of_le ?_
          exact (List.countP_eq_length.mpr hall).ge
      · have hperm := List.perm_insertionSort (fun a b => a.2.lastUsed ≤ b.2.lastUsed)
          (d.updateAll (sweep busy now [])).items
        exact (hperm.map Prod.fst).nodup_iff.mpr (Dict.nodup _)
      · intro x hx
        exact Dict.get?_eq_some.mpr ((List.mem_insertionSort _).mp hx)
      · intro key e he
        refine Or.inr (List.mem_map.mpr ⟨(key, e), ?_, rfl⟩)
        exact (List.mem_insertionSort _).mpr (Dict.get?_eq_some.mp he)

end Size

end Evictions

/-! ## §5  The cache after each block -/

namespace ClientManager

variable (settings : CacheSettings)

/-- The maximum, and the clients that are in use besides. -/
def Bounded (M : ClientManager) : Prop :=
  M.clients.items.length ≤ settings.cacheMaxsize + M.clients.inUse M.busy

/-- When the count of a block that ends has been given back, no client in use has expired or is
marked, or no more clients than the maximum are idle, have not expired and are not marked. -/
def Eased (M : ClientManager) : BorrowAction → Prop
  | .move b (.leave now) =>
      ∀ block client, M.blocks[b]? = some block → block.stage = .opened client →
        (giveBack settings now block.url client M.clients).deferred M.busy now = false ∨
          (giveBack settings now block.url client M.clients).spare M.busy now ≤
            settings.cacheMaxsize
  | _ => True

variable {settings} {M M' : ClientManager}

theorem step_leave {b : ℕ} {now : ℤ} (h : M.step settings (.move b (.leave now)) = some M') :
    ∃ block client, M.blocks[b]? = some block ∧ block.stage = .opened client ∧
      M' = M.release settings b block client now := by
  obtain ⟨block, hblock, h⟩ := Option.bind_eq_some_iff.mp h
  cases moveBlock_cases h with
  | leave client _ hs => exact ⟨block, client, hblock, hs, rfl⟩

/-- A block that ends leaves the cache bounded exactly under the condition. -/
theorem bounded_iff_eased {b : ℕ} {now : ℤ}
    (h : M.step settings (.move b (.leave now)) = some M') :
    M'.Bounded settings ↔ M.Eased settings (.move b (.leave now)) := by
  obtain ⟨block, client, hblock, hstage, rfl⟩ := step_leave h
  have hsize : (M.release settings b block client now).Bounded settings ↔ _ :=
    evictLocked_size_iff (giveBack settings now block.url client M.clients)
  rw [hsize]
  constructor
  · intro hcond block' client' hblock' hstage'
    rw [hblock] at hblock'
    cases hblock'
    rw [hstage] at hstage'
    cases hstage'
    exact hcond
  · intro hcond
    exact hcond block client hblock hstage

/-- Over every run, the cache is bounded after each completed block exactly when each block
that ends meets the condition. -/
theorem cache_bounded_iff {as : List BorrowAction}
    (h : Machine.run (ClientManager.step settings) {} as = some M) :
    Machine.Along (ClientManager.step settings)
        (fun _ a M' => ∀ b now, a = .move b (.leave now) → M'.Bounded settings) {} as ↔
      Machine.Runs (ClientManager.step settings) (fun M a => M.Eased settings a) {} as M := by
  refine Machine.along_iff_runs (I := fun _ => True) ?_ (fun _ _ _ _ _ _ => trivial) trivial h
  rintro M a M' - hstep
  by_cases hleave : ∃ b now, a = .move b (.leave now)
  · obtain ⟨b, now, rfl⟩ := hleave
    rw [← bounded_iff_eased hstep]
    constructor
    · intro hb
      exact hb b now rfl
    · rintro hb b' now' -
      exact hb
  · refine iff_of_true (fun b now ha => absurd ⟨b, now, ha⟩ hleave) ?_
    unfold Eased
    split
    · rename_i b now
      exact absurd ⟨b, now, rfl⟩ hleave
    · trivial

end ClientManager

/-- A cache of one client, without a time to live -/
def oneClient : CacheSettings := ⟨0, 1, Nat.one_pos⟩

def peer (c : Char) : Text := "http://peer-".toList ++ [c]

/-- One block after the other borrows the client of its URL and gives it back. -/
def visit (b : ℕ) (c : Char) (now : ℤ) : List BorrowAction :=
  [.call (peer c), .move b (.admitted now), .move b (.leave (now + 1))]

def afterVisits (as : List BorrowAction)
    (h : (Machine.run (ClientManager.step oneClient) {} as).isSome = true) : ClientManager :=
  Machine.after (ClientManager.step oneClient) {} as h

/-- The client of the first block makes room for that of the second. -/
def succession : List BorrowAction :=
  visit 0 '1' 0 ++ [.call (peer '2'), .move 1 (.admitted 2)]

/-- The first client is closed, and the second block ends too. -/
def successionEnded : List BorrowAction := succession ++ [.move 1 .closes, .move 1 (.leave 3)]

theorem succession_bounded :
    Machine.Along (ClientManager.step oneClient)
      (fun _ a M' => ∀ b now, a = .move b (.leave now) → M'.Bounded oneClient) {}
      successionEnded := by
  have hrun : Machine.run (ClientManager.step oneClient) {} successionEnded =
      some (afterVisits successionEnded (by rfl)) := Machine.run_after (by rfl)
  refine (ClientManager.cache_bounded_iff hrun).mpr ?_
  refine .cons trivial rfl (.cons trivial rfl (.cons ?_ rfl (.cons trivial rfl (.cons trivial rfl
    (.cons trivial rfl (.cons ?_ rfl (.nil _)))))))
  · intro block client hblock hstage
    cases hblock
    cases hstage
    exact .inl (by decide)
  · intro block client hblock hstage
    cases hblock
    cases hstage
    exact .inl (by decide)

/-- The first client stays borrowed while two others are visited. -/
def whileBorrowed : List BorrowAction :=
  [.call (peer '1'), .move 0 (.admitted 0)] ++ visit 1 '2' 1 ++ visit 2 '3' 3

/-- Three clients are in a cache of one, and one of them is in use. -/
theorem cache_outgrown :
    Machine.run (ClientManager.step oneClient) {} whileBorrowed =
        some (afterVisits whileBorrowed (by rfl)) ∧
      (afterVisits whileBorrowed (by rfl)).clients.items.length = 3 ∧
      ¬ (afterVisits whileBorrowed (by rfl)).Bounded oneClient :=
  ⟨Machine.run_after (by rfl), rfl, fun h => absurd h (by unfold ClientManager.Bounded; decide)⟩

end OpencodeA2a.Server
