import OpencodeA2a.Server.ClientManager

/-!
# Who holds a client

The count of an entry of the client cache against the blocks that hold its client, and where
the clients go that an eviction takes out.
-/

namespace OpencodeA2a.Server

open OpencodeA2a.Stream (Text)

variable {settings : CacheSettings} {busy : ℕ → ℕ} {now : ℤ} {url : Text}
  {d d' : ClientCache} {M M' : ClientManager}

/-! ## §1  The blocks -/

/-- The block has borrowed the client and not given it back. -/
def BorrowStage.holds (client : ℕ) : BorrowStage → Bool
  | .opening c _ | .opened c => c == client
  | _ => false

/-- The clients that the block is still to close, from the one whose close it awaits on. -/
def BorrowStage.toClose : BorrowStage → List ℕ
  | .opening _ l | .closing l => l
  | _ => []

@[simp] theorem holds_toBody (client c : ℕ) (l : List ℕ) :
    (BorrowStage.toBody client l).holds c = (client == c) := by
  unfold BorrowStage.toBody
  split <;> rfl

@[simp] theorem holds_toEnd (c : ℕ) (l : List ℕ) : (BorrowStage.toEnd l).holds c = false := by
  unfold BorrowStage.toEnd
  split <;> rfl

@[simp] theorem toClose_toBody (client : ℕ) (l : List ℕ) :
    (BorrowStage.toBody client l).toClose = l := by
  unfold BorrowStage.toBody
  split
  · rename_i hl
    rw [hl]
    rfl
  · rfl

@[simp] theorem toClose_toEnd (l : List ℕ) : (BorrowStage.toEnd l).toClose = l := by
  unfold BorrowStage.toEnd
  split
  · rename_i hl
    rw [hl]
    rfl
  · rfl

namespace ClientManager

/-- How many blocks hold the client. -/
def holders (M : ClientManager) (client : ℕ) : ℕ :=
  M.blocks.countP fun block => block.stage.holds client

/-- The clients whose close is due or awaited. -/
def pending (M : ClientManager) : List ℕ := M.blocks.flatMap fun block => block.stage.toClose

/-- Each count is that of the blocks that hold the client; a client that nobody holds and that
has no request in flight may be evicted. -/
structure Exact (M : ClientManager) : Prop where
  count : ∀ key e, M.clients.get? key = some e → e.borrowCount = M.holders e.client
  evictable : ∀ key e, M.clients.get? key = some e → M.holders e.client = 0 →
    M.busy e.client = 0 → e.inUse M.busy = false

/-- What is closed is in no use, and what has left the cache is closed once. -/
structure ClosedSafely (M : ClientManager) : Prop where
  idle : ∀ c, c ∈ M.pending ∨ c ∈ M.closed →
    c ∉ M.clients.cached ∧ M.holders c = 0 ∧ M.busy c = 0
  once : ∀ c < M.created, c ∉ M.clients.cached → (M.pending ++ M.closed).count c = 1

end ClientManager

/-! ## §2  Counts in the cache -/

/-- The counts are `f`, over distinct clients with numbers below `n`. -/
structure ClientCache.Books (d : ClientCache) (n : ℕ) (f : ℕ → ℕ) : Prop where
  count : ∀ key e, d.get? key = some e → e.borrowCount = f e.client
  below : ∀ key e, d.get? key = some e → e.client < n
  distinct : ∀ key key' e e', d.get? key = some e → d.get? key' = some e' →
    e.client = e'.client → key = key'

namespace ClientCache.Books

variable {n client : ℕ} {f : ℕ → ℕ}

theorem empty : ClientCache.Books .empty n f := ⟨nofun, nofun, nofun⟩

/-- The counts of clients that are not cached do not matter. -/
theorem congr {f' : ℕ → ℕ} (h : d.Books n f)
    (hf : ∀ key e, d.get? key = some e → f' e.client = f e.client) : d.Books n f' :=
  ⟨fun key e he => (h.count key e he).trans (hf key e he).symm, h.below, h.distinct⟩

theorem evicted {protectedKeys : List Text} {l : List ℕ} (h : d.Books n f)
    (hev : Evicted busy protectedKeys d d' l) : d'.Books n f := by
  refine ⟨?_, ?_, ?_⟩
  · intro key e' he'
    obtain ⟨e, he, hclient, hcount⟩ := hev.entries key e' he'
    rw [hcount, hclient]
    exact h.count key e he
  · intro key e' he'
    obtain ⟨e, he, hclient, -⟩ := hev.entries key e' he'
    rw [hclient]
    exact h.below key e he
  · intro key key' e₁ e₂ he₁ he₂ heq
    obtain ⟨e₁', he₁', hclient₁, -⟩ := hev.entries key e₁ he₁
    obtain ⟨e₂', he₂', hclient₂, -⟩ := hev.entries key' e₂ he₂
    exact h.distinct key key' e₁' e₂' he₁' he₂' (hclient₁.symm.trans (heq.trans hclient₂))

/-- The entry under a key is set, to one of a client that no other key has. -/
theorem set (h : d.Books n f) {key : Text} {e : CacheEntry} {m : ℕ} (hm : n ≤ m)
    (hbelow : e.client < m)
    (hother : ∀ key' e', d.get? key' = some e' → e'.client = e.client → key' = key) :
    ClientCache.Books (d.set key e) m (Function.update f e.client e.borrowCount) := by
  refine ⟨?_, ?_, ?_⟩
  · intro key' e' he'
    rw [Dict.get?_set] at he'
    split at he'
    · cases he'
      rw [Function.update_self]
    · rename_i hne
      rw [Function.update_of_ne]
      · exact h.count key' e' he'
      · exact fun heq => hne (hother key' e' he' heq)
  · intro key' e' he'
    rw [Dict.get?_set] at he'
    split at he'
    · cases he'
      exact hbelow
    · exact Nat.lt_of_lt_of_le (h.below key' e' he') hm
  · intro key₁ key₂ e₁ e₂ he₁ he₂ heq
    rw [Dict.get?_set] at he₁ he₂
    split at he₁
    · rename_i hk₁
      cases he₁
      split at he₂
      · rename_i hk₂
        exact hk₁.trans hk₂.symm
      · exact hk₁.trans (hother key₂ e₂ he₂ heq.symm).symm
    · split at he₂
      · rename_i hk₂
        cases he₂
        exact (hother key₁ e₁ he₁ heq).trans hk₂.symm
      · exact h.distinct key₁ key₂ e₁ e₂ he₁ he₂ heq

/-- The client that a block gets, and its count. -/
theorem acquire (h : d.Books n f) (hnew : f n = 0) {client' m : ℕ}
    (heq : acquireEntry settings now url n d = (d', client', m)) :
    d'.Books m (Function.update f client' (f client' + 1)) ∧ n ≤ m ∧ client' < m ∧
      ∃ e, d'.get? url = some e ∧ e.client = client' := by
  unfold acquireEntry at heq
  split at heq
  · rename_i hnone
    cases heq
    refine ⟨?_, Nat.le_succ n, Nat.lt_succ_self n, _, Dict.get?_set_self _ _ _, rfl⟩
    rw [hnew]
    refine h.set (Nat.le_succ n) (Nat.lt_succ_self n) fun key' e' he' hclient => ?_
    exact absurd hclient (Nat.ne_of_lt (h.below key' e' he'))
  · rename_i e he
    cases heq
    refine ⟨?_, Nat.le_refl n, h.below url e he, _, Dict.get?_set_self _ _ _, rfl⟩
    rw [← h.count url e he]
    refine h.set (Nat.le_refl n) (h.below url e he) fun key' e' he' hclient => ?_
    exact h.distinct key' url e' e he' he hclient

/-- An entry of a client made before was there before. -/
theorem before_acquire {client' m : ℕ}
    (heq : acquireEntry settings now url n d = (d', client', m)) {key : Text} {e : CacheEntry}
    (he : d'.get? key = some e) (hlt : e.client < n) :
    ∃ e₀, d.get? key = some e₀ ∧ e.client = e₀.client := by
  unfold acquireEntry at heq
  split at heq
  · cases heq
    rw [Dict.get?_set] at he
    split at he
    · cases he
      exact absurd hlt (Nat.lt_irrefl _)
    · exact ⟨e, he, rfl⟩
  · rename_i e₀ he₀
    cases heq
    rw [Dict.get?_set] at he
    split at he
    · rename_i hkey
      cases he
      exact ⟨e₀, hkey ▸ he₀, rfl⟩
    · exact ⟨e, he, rfl⟩

variable (settings now) in
/-- A client that is cached at most under its block's URL is given back. -/
theorem giveBack (h : d.Books n f)
    (hurl : ∀ key e, d.get? key = some e → e.client = client → key = url) :
    ClientCache.Books (giveBack settings now url client d) n
      (Function.update f client (f client - 1)) := by
  have habsent (hno : ∀ key e, d.get? key = some e → e.client ≠ client) :
      d.Books n (Function.update f client (f client - 1)) :=
    h.congr fun key e he => Function.update_of_ne (hno key e he) _ _
  unfold Server.giveBack
  split
  · rename_i hnone
    refine habsent fun key e he hclient => ?_
    rw [hurl key e he hclient, hnone] at he
    cases he
  · rename_i current hcurrent
    split
    · rename_i hclient
      have hcount := h.count url current hcurrent
      rw [hclient] at hcount
      rw [← hcount]
      refine h.set (Nat.le_refl n) (hclient ▸ h.below url current hcurrent) ?_
      exact fun key' e' he' heq => hurl key' e' he' heq
    · rename_i hclient
      refine habsent fun key e he heq => ?_
      rw [hurl key e he heq, hcurrent] at he
      cases he
      exact hclient heq

/-- Giving back brings no client into the cache. -/
theorem before_giveBack {key : Text} {e : CacheEntry}
    (he : (Server.giveBack settings now url client d).get? key = some e) :
    ∃ e₀, d.get? key = some e₀ ∧ e.client = e₀.client := by
  unfold Server.giveBack at he
  split at he
  · exact ⟨e, he, rfl⟩
  · rename_i current hcurrent
    split at he
    · rename_i hclient
      rw [Dict.get?_set] at he
      split at he
      · rename_i hkey
        cases he
        exact ⟨current, hkey ▸ hcurrent, hclient.symm⟩
      · exact ⟨e, he, rfl⟩
    · exact ⟨e, he, rfl⟩

end ClientCache.Books

/-! ## §3  Counts and blocks -/

namespace ClientManager

/-- The counts are the numbers of holders, and a client that a block holds is cached under the
block's URL, if at all. -/
structure Kept (M : ClientManager) : Prop where
  books : M.clients.Books M.created M.holders
  held : ∀ block ∈ M.blocks, ∀ c, block.stage.holds c = true →
    c < M.created ∧ ∀ key e, M.clients.get? key = some e → e.client = c → key = block.url

variable {b : ℕ} {block : BorrowBlock} {stage : BorrowStage}

theorem holders_goto (hb : M.blocks[b]? = some block) (stage : BorrowStage) (c : ℕ) :
    (M.goto b block stage).holders c =
      M.holders c - (if block.stage.holds c then 1 else 0) + if stage.holds c then 1 else 0 := by
  obtain ⟨hlt, hget⟩ := List.getElem?_eq_some_iff.mp hb
  show (M.blocks.set b _).countP _ = _
  rw [List.countP_set hlt, hget]
  rfl

theorem holders_pos (hb : M.blocks[b]? = some block) {c : ℕ} (hc : block.stage.holds c = true) :
    0 < M.holders c :=
  List.countP_pos_iff.mpr ⟨block, List.mem_of_getElem? hb, hc⟩

theorem holders_goto_same (hb : M.blocks[b]? = some block) {c : ℕ}
    (hc : stage.holds c = block.stage.holds c) : (M.goto b block stage).holders c = M.holders c := by
  rw [holders_goto hb, hc]
  split
  · rename_i hholds
    have hpos := holders_pos hb hholds
    omega
  · rfl

/-- Nobody holds a client that has not been made. -/
theorem Kept.holders_created (h : M.Kept) : M.holders M.created = 0 := by
  refine List.countP_eq_zero.mpr fun block hblock hholds => ?_
  exact Nat.lt_irrefl _ (h.held block hblock _ hholds).1

theorem mem_goto {x : BorrowBlock} (hx : x ∈ (M.goto b block stage).blocks) :
    x ∈ M.blocks ∨ x = { block with stage := stage } :=
  List.mem_or_eq_of_mem_set hx

/-- A block goes on, with the client it held or without it. -/
theorem Kept.goto (h : M.Kept) (hb : M.blocks[b]? = some block)
    (hholds : ∀ c, stage.holds c = true → block.stage.holds c = true)
    (hcached : ∀ key e, M.clients.get? key = some e →
      stage.holds e.client = block.stage.holds e.client) : (M.goto b block stage).Kept := by
  refine ⟨h.books.congr fun key e he => holders_goto_same hb (hcached key e he), ?_⟩
  intro x hx c hc
  rcases mem_goto hx with hx | rfl
  · exact h.held x hx c hc
  · exact h.held block (List.mem_of_getElem? hb) c (hholds c hc)

/-- A block ends that holds no cached client. -/
theorem Kept.ends (h : M.Kept) (hb : M.blocks[b]? = some block)
    (hnone : ∀ key e, M.clients.get? key = some e → block.stage.holds e.client = false) :
    (M.goto b block .ended).Kept := by
  apply h.goto hb
  · intro c hc
    cases hc
  · intro key e he
    exact (hnone key e he).symm

theorem Kept.bump (h : M.Kept) (client : ℕ) : (M.bump client).Kept := ⟨h.books, h.held⟩

theorem Kept.closes (h : M.Kept) (l : List ℕ) : Kept { M with closed := l } := ⟨h.books, h.held⟩

/-- The holders of a client after its block has given it back. -/
theorem holders_toEnd (hb : M.blocks[b]? = some block) {client : ℕ}
    (hs : block.stage = .opened client) (l : List ℕ) :
    (M.goto b block (.toEnd l)).holders =
      Function.update M.holders client (M.holders client - 1) := by
  funext c
  rw [holders_goto hb, hs, holds_toEnd]
  by_cases hc : c = client
  · subst hc
    rw [Function.update_self]
    simp [BorrowStage.holds]
  · rw [Function.update_of_ne hc]
    simp [BorrowStage.holds, Ne.symm hc]

/-- The holders of a client after a block has borrowed it. -/
theorem holders_toBody (hb : M.blocks[b]? = some block) (hs : block.stage = .validating)
    (client : ℕ) (l : List ℕ) :
    (M.goto b block (.toBody client l)).holders =
      Function.update M.holders client (M.holders client + 1) := by
  funext c
  rw [holders_goto hb, hs, holds_toBody]
  by_cases hc : c = client
  · subst hc
    rw [Function.update_self]
    simp [BorrowStage.holds]
  · rw [Function.update_of_ne hc]
    simp [BorrowStage.holds, Ne.symm hc]

/-! ### What a block does under the lock -/

theorem evicted_expireOwn (busy : ℕ → ℕ) (now : ℤ) (url : Text) (d : ClientCache) :
    Evicted busy [] d (expireOwn busy now url d).1 (expireOwn busy now url d).2 := by
  unfold expireOwn
  split
  · exact Evicted.refl
  · rename_i e he
    split
    · split
      · exact evicted_mark he
      · rename_i huse
        exact evicted_pop he List.not_mem_nil (Bool.eq_false_iff.mpr huse)
    · exact Evicted.refl

theorem weaken {protectedKeys : List Text} {l : List ℕ}
    (h : Evicted busy protectedKeys d d' l) : Evicted busy [] d d' l :=
  ⟨h.cached, h.entries, fun key e he huse => h.kept key e he (Or.inr (huse.resolve_left nofun))⟩

/-- Before its body a block evicts, acquires the entry of its URL and evicts once more. -/
theorem borrow_eq (settings : CacheSettings) (M : ClientManager) (b : ℕ) (block : BorrowBlock)
    (now : ℤ) : ∃ d₁ d₂ d₃ client created l l₃,
      Evicted M.busy [] M.clients d₁ l ∧
      acquireEntry settings now block.url M.created d₁ = (d₂, client, created) ∧
      Evicted M.busy [block.url] d₂ d₃ l₃ ∧
      M.borrow settings b block now =
        { M with clients := d₃, created := created }.goto b block (.toBody client (l ++ l₃)) :=
  ⟨_, _, _, _, _, _, _,
    (evicted_expireOwn M.busy now block.url M.clients).trans
      (weaken (evicted_locked settings M.busy now [block.url] _)),
    rfl, evicted_locked settings M.busy now [block.url] _, rfl⟩

theorem Kept.borrow (h : M.Kept) (hb : M.blocks[b]? = some block)
    (hs : block.stage = .validating) (now : ℤ) : (M.borrow settings b block now).Kept := by
  obtain ⟨d₁, d₂, d₃, client, created, l, l₃, hev, hacquire, hev₃, heq⟩ :=
    borrow_eq settings M b block now
  obtain ⟨hbooks, hle, hlt, e, he, hclient⟩ :=
    (h.books.evicted hev).acquire h.holders_created hacquire
  rw [heq]
  have hbefore : ∀ key e₃, d₃.get? key = some e₃ → e₃.client < M.created →
      ∃ e₀, M.clients.get? key = some e₀ ∧ e₃.client = e₀.client := by
    intro key e₃ he₃ hlt₃
    obtain ⟨e₂, he₂, hclient₂, -⟩ := hev₃.entries key e₃ he₃
    obtain ⟨e₁, he₁, hclient₁⟩ := ClientCache.Books.before_acquire hacquire he₂ (hclient₂ ▸ hlt₃)
    obtain ⟨e₀, he₀, hclient₀, -⟩ := hev.entries key e₁ he₁
    exact ⟨e₀, he₀, hclient₂.trans (hclient₁.trans hclient₀)⟩
  refine ⟨?_, ?_⟩
  · show ClientCache.Books d₃ created (M.goto b block (.toBody client (l ++ l₃))).holders
    rw [holders_toBody hb hs]
    exact hbooks.evicted hev₃
  · intro x hx c hc
    rcases mem_goto hx with hx | rfl
    · obtain ⟨hmade, hurl⟩ := h.held x hx c hc
      refine ⟨Nat.lt_of_lt_of_le hmade hle, fun key e₃ he₃ hc₃ => ?_⟩
      obtain ⟨e₀, he₀, hclient₀⟩ := hbefore key e₃ he₃ (hc₃.trans_lt hmade)
      exact hurl key e₀ he₀ (hclient₀.symm.trans hc₃)
    · rw [holds_toBody, beq_iff_eq] at hc
      subst hc
      refine ⟨hlt, fun key e₃ he₃ hclient₃ => ?_⟩
      obtain ⟨e₂, he₂, hclient₂, -⟩ := hev₃.entries key e₃ he₃
      exact hbooks.distinct key block.url e₂ e he₂ he
        (hclient₂.symm.trans (hclient₃.trans hclient.symm))

/-- A block that ends gives its client back and evicts once more. -/
theorem release_eq (settings : CacheSettings) (M : ClientManager) (b : ℕ) (block : BorrowBlock)
    (client : ℕ) (now : ℤ) : ∃ d' l,
      Evicted M.busy [] (giveBack settings now block.url client M.clients) d' l ∧
      M.release settings b block client now =
        { M with clients := d' }.goto b block (.toEnd l) :=
  ⟨_, _, evicted_locked settings M.busy now [] _, rfl⟩

theorem Kept.giveBack (h : M.Kept) (hb : M.blocks[b]? = some block) {client : ℕ}
    (hs : block.stage = .opened client) (now : ℤ) (l : List ℕ) :
    ClientCache.Books (giveBack settings now block.url client M.clients) M.created
      (M.goto b block (.toEnd l)).holders := by
  have hholds : block.stage.holds client = true := by
    rw [hs]
    exact beq_self_eq_true client
  rw [holders_toEnd hb hs]
  exact h.books.giveBack settings now (h.held block (List.mem_of_getElem? hb) client hholds).2

theorem Kept.release (h : M.Kept) (hb : M.blocks[b]? = some block) {client : ℕ}
    (hs : block.stage = .opened client) (now : ℤ) :
    (M.release settings b block client now).Kept := by
  obtain ⟨d', l, hev, heq⟩ := release_eq settings M b block client now
  rw [heq]
  constructor
  · exact (h.giveBack hb hs now l).evicted hev
  · intro x hx c hc
    rcases mem_goto hx with hx | rfl
    · obtain ⟨hmade, hurl⟩ := h.held x hx c hc
      refine ⟨hmade, fun key e' he' hc' => ?_⟩
      obtain ⟨e, he, hclient, -⟩ := hev.entries key e' he'
      obtain ⟨e₀, he₀, hclient₀⟩ := ClientCache.Books.before_giveBack he
      exact hurl key e₀ he₀ (hclient₀.symm.trans (hclient.symm.trans hc'))
    · rw [holds_toEnd] at hc
      cases hc

/-- A block that holds nothing comes in. -/
theorem Kept.opens (h : M.Kept) {block : BorrowBlock} (hnone : ∀ c, block.stage.holds c = false) :
    Kept { M with blocks := M.blocks ++ [block] } := by
  constructor
  · apply h.books.congr
    intro key e he
    show (M.blocks ++ [block]).countP _ = M.blocks.countP _
    rw [List.countP_append, List.countP_singleton, hnone]
    rfl
  · intro x hx c hc
    rcases List.mem_append.mp hx with hx | hx
    · exact h.held x hx c hc
    · rw [List.mem_singleton.mp hx, hnone] at hc
      cases hc

theorem Kept.cleared (h : M.Kept) : Kept { M with clients := .empty } :=
  ⟨ClientCache.Books.empty, fun x hx c hc => ⟨(h.held x hx c hc).1, nofun⟩⟩

theorem Kept.init : Kept {} := ⟨ClientCache.Books.empty, nofun⟩

/-! ## §4  The counts along a run -/

theorem Kept.exact (h : M.Kept) : M.Exact := by
  constructor
  · exact h.books.count
  · intro key e he hholders hbusy
    have hcount := h.books.count key e he
    unfold CacheEntry.inUse
    rw [hcount, hholders, hbusy]
    rfl

/-- No close fails that a block awaits before its `yield`, as long as the block's client is in
the cache. -/
def Steady (M : ClientManager) : BorrowAction → Prop
  | .move b .closeFails =>
      ∀ block client toClose, M.blocks[b]? = some block → block.stage = .opening client toClose →
        client ∉ M.clients.cached
  | _ => True

theorem mem_cached {c : ℕ} : c ∈ d.cached ↔ ∃ key e, d.get? key = some e ∧ e.client = c := by
  constructor
  · intro h
    obtain ⟨x, hx, rfl⟩ := List.mem_map.mp h
    exact ⟨x.1, x.2, Dict.get?_eq_some.mpr hx, rfl⟩
  · rintro ⟨key, e, he, rfl⟩
    exact List.mem_map.mpr ⟨(key, e), Dict.get?_eq_some.mp he, rfl⟩

theorem Kept.moves {a : BlockMove} (h : M.Kept) (hb : M.blocks[b]? = some block)
    (hok : M.Steady (.move b a)) (hmove : BlockMoves settings M b block a M') : M'.Kept := by
  cases hmove with
  | enter now hs => exact h.borrow hb hs now
  | leave client now hs => exact h.release hb hs now
  | request client hs => exact h.bump client
  | refuse hs => exact h.ends hb fun _ _ _ => by rw [hs]; rfl
  | failLast toClose hs => exact h.ends hb fun _ _ _ => by rw [hs]; rfl
  | closeFirst client c toClose hs =>
      have hsame : ∀ c', (BorrowStage.toBody client toClose).holds c' = block.stage.holds c' := by
        intro c'
        rw [hs, holds_toBody]
        rfl
      exact (h.closes _).goto hb (fun c' hc' => hsame c' ▸ hc') fun _ _ _ => hsame _
  | closeLast c toClose hs =>
      have hsame : ∀ c', (BorrowStage.toEnd toClose).holds c' = block.stage.holds c' := by
        intro c'
        rw [hs, holds_toEnd]
        rfl
      exact (h.closes _).goto hb (fun c' hc' => hsame c' ▸ hc') fun _ _ _ => hsame _
  | failFirst client toClose hs =>
      -- the client is left counted, but it is no longer in the cache
      apply h.ends hb
      intro key e he
      rw [hs]
      have hne : client ≠ e.client := by
        rintro rfl
        exact hok block _ toClose hb hs (mem_cached.mpr ⟨key, e, he, rfl⟩)
      exact beq_eq_false_iff_ne.mpr hne

theorem Kept.step {a : BorrowAction} (h : M.Kept) (hok : M.Steady a)
    (hstep : M.step settings a = some M') : M'.Kept := by
  cases a with
  | call url =>
      cases hstep
      exact h.opens fun _ => rfl
  | move b a =>
      obtain ⟨block, hblock, hmove⟩ := Option.bind_eq_some_iff.mp hstep
      exact h.moves hblock hok (moveBlock_cases hmove)
  | answered client =>
      simp only [ClientManager.step] at hstep
      split at hstep
      · cases hstep
        exact ⟨h.books, h.held⟩
      · cases hstep
  | closeAll =>
      cases hstep
      exact h.cleared.opens fun c => holds_toEnd c _

/-- A close that fails before the `yield` leaves a cached client counted that nobody holds. -/
theorem Kept.steady_of_exact {a : BorrowAction} (h : M.Kept)
    (hstep : M.step settings a = some M') (hexact : M'.Exact) : M.Steady a := by
  unfold Steady
  split
  · intro block client toClose hb hs hcached
    obtain ⟨block', hb', hmove⟩ := Option.bind_eq_some_iff.mp hstep
    rw [hb] at hb'
    cases hb'
    have hholds : block.stage.holds client = true := by
      rw [hs]
      exact beq_self_eq_true client
    cases moveBlock_cases hmove with
    | failLast toClose' hs' =>
        rw [hs] at hs'
        cases hs'
    | failFirst client' toClose' hs' =>
        obtain ⟨key, e, he, rfl⟩ := mem_cached.mp hcached
        have hbefore := h.books.count key e he
        have hafter := hexact.count key e he
        have hpos := holders_pos hb hholds
        rw [holders_goto hb, hholds, hbefore] at hafter
        simp only [BorrowStage.holds, if_true, Bool.false_eq_true, if_false] at hafter
        omega
  · trivial

/-- Over every run, the counts are exact after each step exactly when each step meets the
condition. -/
theorem counts_exact_iff {as : List BorrowAction}
    (h : Machine.run (ClientManager.step settings) {} as = some M) :
    Machine.Along (ClientManager.step settings) (fun _ _ M' => M'.Exact) {} as ↔
      Machine.Runs (ClientManager.step settings) Steady {} as M := by
  apply Machine.along_iff_runs (I := Kept) _ _ Kept.init h
  · intro M a M' hkept hstep
    constructor
    · exact hkept.steady_of_exact hstep
    · intro hok
      exact (hkept.step hok hstep).exact
  · intro M a M' hkept hok hstep
    exact hkept.step hok hstep

end ClientManager

theorem succession_counts :
    Machine.Along (ClientManager.step oneClient) (fun _ _ M' => M'.Exact) {} successionEnded := by
  have hrun : Machine.run (ClientManager.step oneClient) {} successionEnded =
      some (afterVisits successionEnded (by rfl)) := Machine.run_after (by rfl)
  refine (ClientManager.counts_exact_iff hrun).mpr ?_
  exact Machine.runs_of_run
    (by simp [successionEnded, succession, visit, ClientManager.Steady]) hrun

/-- The client that makes room for another cannot be closed. -/
def failingClose : List BorrowAction :=
  visit 0 '1' 0 ++ [.call (peer '2'), .move 1 (.admitted 2), .move 1 .closeFails]

/-- Both blocks have ended, but the second client stays counted as borrowed. -/
theorem count_stays :
    Machine.run (ClientManager.step oneClient) {} failingClose =
        some (afterVisits failingClose (by rfl)) ∧
      (afterVisits failingClose (by rfl)).blocks =
        [⟨peer '1', .ended⟩, ⟨peer '2', .ended⟩] ∧
      (afterVisits failingClose (by rfl)).clients.items =
        [(peer '2', ⟨1, 2, none, 1, false⟩)] ∧
      ¬ (afterVisits failingClose (by rfl)).Exact :=
  ⟨Machine.run_after (by rfl), rfl, rfl, fun h =>
    absurd (h.count (peer '2') ⟨1, 2, none, 1, false⟩ (by rfl)) (by decide)⟩

/-! ## §5  What is closed -/

namespace ClientManager

variable {b : ℕ} {block : BorrowBlock} {stage : BorrowStage}

/-- `close_all` is not called, and no close fails or is cancelled. -/
def Calm (_ : ClientManager) : BorrowAction → Prop
  | .closeAll | .move _ .closeFails => False
  | _ => True

/-- A client that is held or busy is cached; a client that was made is cached, or its close is
due or awaited, or it is closed. -/
structure Safe (M : ClientManager) : Prop extends M.Kept where
  there : ∀ block ∈ M.blocks, ∀ c, block.stage.holds c = true →
    ∃ e, M.clients.get? block.url = some e ∧ e.client = c
  busyCached : ∀ c, 0 < M.busy c → c ∈ M.clients.cached
  all : (M.clients.cached ++ (M.pending ++ M.closed)).Perm (List.range M.created)

theorem Safe.closedSafely (h : M.Safe) : M.ClosedSafely := by
  have hnodup : (M.clients.cached ++ (M.pending ++ M.closed)).Nodup :=
    h.all.nodup_iff.mpr List.nodup_range
  constructor
  · intro c hc
    have hnot : c ∉ M.clients.cached := by
      intro hcached
      exact (List.nodup_append.mp hnodup).2.2 c hcached c (List.mem_append.mpr hc) rfl
    refine ⟨hnot, ?_, ?_⟩
    · apply List.countP_eq_zero.mpr
      intro block hblock hholds
      obtain ⟨e, he, hclient⟩ := h.there block hblock c hholds
      exact hnot (mem_cached.mpr ⟨block.url, e, he, hclient⟩)
    · by_contra hbusy
      exact hnot (h.busyCached c (Nat.pos_of_ne_zero hbusy))
  · intro c hc hnot
    have hcount := h.all.count_eq c
    rw [List.count_append, List.count_eq_zero_of_not_mem hnot, Nat.zero_add] at hcount
    rw [hcount]
    exact List.count_eq_one_of_mem List.nodup_range (List.mem_range.mpr hc)

/-! ### The pending closes -/

/-- What the other blocks are to close stays. -/
theorem pending_goto (hb : M.blocks[b]? = some block) (stage : BorrowStage) :
    ∃ others, M.pending.Perm (block.stage.toClose ++ others) ∧
      (M.goto b block stage).pending.Perm (stage.toClose ++ others) := by
  obtain ⟨hlt, hget⟩ := List.getElem?_eq_some_iff.mp hb
  have hsplit : ∀ x : BorrowBlock, ((M.blocks.set b x).flatMap fun x => x.stage.toClose).Perm
      (x.stage.toClose ++ ((M.blocks.take b).flatMap (fun x => x.stage.toClose) ++
        (M.blocks.drop (b + 1)).flatMap fun x => x.stage.toClose)) := by
    intro x
    rw [List.set_eq_take_append_cons_drop, if_pos hlt, List.flatMap_append, List.flatMap_cons,
      ← List.append_assoc, ← List.append_assoc]
    exact List.perm_append_comm.append_right _
  refine ⟨_, ?_, hsplit { block with stage := stage }⟩
  have hself := hsplit block
  rw [← hget, List.set_getElem_self, hget] at hself
  exact hself

/-! ### Borrowing -/

/-- A client in use, or of a protected key, survives an eviction. -/
theorem survives {protectedKeys : List Text} {l : List ℕ} (h : Evicted busy protectedKeys d d' l)
    {key : Text} {e : CacheEntry} (he : d.get? key = some e)
    (huse : key ∈ protectedKeys ∨ 0 < e.borrowCount ∨ 0 < busy e.client) :
    ∃ e', d'.get? key = some e' ∧ e'.client = e.client := by
  have hkept : key ∈ protectedKeys ∨ e.inUse busy = true := by
    refine huse.imp id fun hpos => ?_
    unfold CacheEntry.inUse
    rw [Bool.or_eq_true, decide_eq_true_eq, decide_eq_true_eq]
    exact hpos
  obtain ⟨e', he', hlike⟩ := h.kept key e he hkept
  exact ⟨e', he', hlike.1⟩

/-- Who was there before an entry is acquired is there afterwards. -/
theorem after_acquire {n client m : ℕ}
    (h : acquireEntry settings now url n d = (d', client, m)) {key : Text} {e : CacheEntry}
    (he : d.get? key = some e) : ∃ e', d'.get? key = some e' ∧ e'.client = e.client := by
  unfold acquireEntry at h
  split at h
  · rename_i hnone
    cases h
    rw [Dict.get?_set_of_ne]
    · exact ⟨e, he, rfl⟩
    · rintro rfl
      rw [hnone] at he
      cases he
  · rename_i e₀ he₀
    cases h
    rw [Dict.get?_set]
    split
    · rename_i hkey
      rw [hkey, he₀] at he
      cases he
      exact ⟨_, rfl, rfl⟩
    · exact ⟨e, he, rfl⟩

/-- The client made for the entry, if any, is the only new one. -/
theorem cached_acquire {n client m : ℕ}
    (h : acquireEntry settings now url n d = (d', client, m)) :
    ∃ fresh, d'.cached.Perm (fresh ++ d.cached) ∧ List.range m = List.range n ++ fresh := by
  unfold acquireEntry at h
  split at h
  · rename_i hnone
    cases h
    exact ⟨[n], cached_set_new hnone _, List.range_succ⟩
  · rename_i e he
    cases h
    refine ⟨[], cached_set he rfl, ?_⟩
    rw [List.append_nil]

theorem Safe.borrow (h : M.Safe) (hb : M.blocks[b]? = some block)
    (hs : block.stage = .validating) (now : ℤ) : (M.borrow settings b block now).Safe := by
  refine { toKept := h.toKept.borrow hb hs now, there := ?_, busyCached := ?_, all := ?_ }
  all_goals
    obtain ⟨d₁, d₂, d₃, client, created, l, l₃, hev, hacquire, hev₃, heq⟩ :=
      borrow_eq settings M b block now
    rw [heq]
  · obtain ⟨hbooks, -, -, e, he, hclient⟩ :=
      (h.books.evicted hev).acquire h.holders_created hacquire
    intro x hx c hc
    rcases mem_goto hx with hx | rfl
    · -- the other blocks: their counts are positive
      obtain ⟨e₀, he₀, hclient₀⟩ := h.there x hx c hc
      have hpos : 0 < M.holders c := List.countP_pos_iff.mpr ⟨x, hx, hc⟩
      have hcount₀ : 0 < e₀.borrowCount := by
        rw [h.books.count _ _ he₀, hclient₀]
        exact hpos
      obtain ⟨e₁, he₁, hclient₁⟩ := survives hev he₀ (Or.inr (Or.inl hcount₀))
      obtain ⟨e₂, he₂, hclient₂⟩ := after_acquire hacquire he₁
      have hsame : e₂.client = c := hclient₂.trans (hclient₁.trans hclient₀)
      have hcount₂ : 0 < e₂.borrowCount := by
        rw [hbooks.count _ _ he₂, hsame, Function.update_apply]
        split
        · exact Nat.succ_pos _
        · exact hpos
      obtain ⟨e₃, he₃, hclient₃⟩ := survives hev₃ he₂ (Or.inr (Or.inl hcount₂))
      exact ⟨e₃, he₃, hclient₃.trans hsame⟩
    · rw [holds_toBody, beq_iff_eq] at hc
      obtain ⟨e₃, he₃, hclient₃⟩ := survives hev₃ he (Or.inl List.mem_cons_self)
      exact ⟨e₃, he₃, hclient₃.trans (hclient.trans hc)⟩
  · intro c hc
    obtain ⟨key, e₀, he₀, rfl⟩ := mem_cached.mp (h.busyCached c hc)
    obtain ⟨e₁, he₁, hclient₁⟩ := survives hev he₀ (Or.inr (Or.inr hc))
    obtain ⟨e₂, he₂, hclient₂⟩ := after_acquire hacquire he₁
    have hsame := hclient₂.trans hclient₁
    have hbusy₂ : 0 < M.busy e₂.client := by
      rw [hsame]
      exact hc
    obtain ⟨e₃, he₃, hclient₃⟩ := survives hev₃ he₂ (Or.inr (Or.inr hbusy₂))
    exact mem_cached.mpr ⟨key, e₃, he₃, hclient₃.trans hsame⟩
  · obtain ⟨fresh, hfresh, hrange⟩ := cached_acquire hacquire
    obtain ⟨others, hbefore, hafter⟩ := pending_goto hb (.toBody client (l ++ l₃))
    rw [hs] at hbefore
    rw [toClose_toBody] at hafter
    show (ClientCache.cached d₃ ++ ((M.goto b block _).pending ++ M.closed)).Perm
      (List.range created)
    rw [hrange]
    refine List.Perm.trans ?_ (h.all.append_right fresh)
    rw [List.perm_iff_count]
    intro c
    have h₀ := hev.cached.count_eq c
    have h₁ := hfresh.count_eq c
    have h₂ := hev₃.cached.count_eq c
    have h₃ := hbefore.count_eq c
    have h₄ := hafter.count_eq c
    simp only [List.count_append, BorrowStage.toClose, List.count_nil] at h₀ h₁ h₂ h₃ h₄ ⊢
    omega

/-! ### Giving back -/

theorem after_giveBack (settings : CacheSettings) (now : ℤ) (url : Text) (client : ℕ)
    {d : ClientCache} {key : Text} {e : CacheEntry} (he : d.get? key = some e) :
    ∃ e', (giveBack settings now url client d).get? key = some e' ∧ e'.client = e.client := by
  unfold giveBack
  split
  · exact ⟨e, he, rfl⟩
  · rename_i current hcurrent
    split
    · rename_i hclient
      rw [Dict.get?_set]
      split
      · rename_i hkey
        rw [hkey, hcurrent] at he
        cases he
        exact ⟨_, rfl, hclient.symm⟩
      · exact ⟨e, he, rfl⟩
    · exact ⟨e, he, rfl⟩

theorem cached_giveBack (settings : CacheSettings) (now : ℤ) (url : Text) (client : ℕ)
    (d : ClientCache) :
    (ClientCache.cached (giveBack settings now url client d)).Perm d.cached := by
  unfold giveBack
  split
  · exact List.Perm.refl _
  · rename_i current hcurrent
    split
    · rename_i hclient
      exact cached_set hcurrent hclient.symm
    · exact List.Perm.refl _

theorem Safe.release (h : M.Safe) (hb : M.blocks[b]? = some block) {client : ℕ}
    (hs : block.stage = .opened client) (now : ℤ) :
    (M.release settings b block client now).Safe := by
  refine { toKept := h.toKept.release hb hs now, there := ?_, busyCached := ?_, all := ?_ }
  all_goals
    obtain ⟨d', l, hev, heq⟩ := release_eq settings M b block client now
    rw [heq]
  · intro x hx c hc
    have hmem : x ∈ M.blocks := by
      rcases mem_goto hx with hmem | rfl
      · exact hmem
      · rw [holds_toEnd] at hc
        cases hc
    obtain ⟨e₀, he₀, hclient₀⟩ := h.there x hmem c hc
    obtain ⟨e₁, he₁, hclient₁⟩ := after_giveBack settings now block.url client he₀
    have hsame := hclient₁.trans hclient₀
    -- the count is that of the blocks that are left, `x` among them
    have hcount : 0 < e₁.borrowCount := by
      rw [(h.toKept.giveBack hb hs now l).count _ _ he₁, hsame]
      exact List.countP_pos_iff.mpr ⟨x, hx, hc⟩
    obtain ⟨e₂, he₂, hclient₂⟩ := survives hev he₁ (Or.inr (Or.inl hcount))
    exact ⟨e₂, he₂, hclient₂.trans hsame⟩
  · intro c hc
    obtain ⟨key, e₀, he₀, rfl⟩ := mem_cached.mp (h.busyCached c hc)
    obtain ⟨e₁, he₁, hclient₁⟩ := after_giveBack settings now block.url client he₀
    have hbusy₁ : 0 < M.busy e₁.client := by
      rw [hclient₁]
      exact hc
    obtain ⟨e₂, he₂, hclient₂⟩ := survives hev he₁ (Or.inr (Or.inr hbusy₁))
    exact mem_cached.mpr ⟨key, e₂, he₂, hclient₂.trans hclient₁⟩
  · obtain ⟨others, hbefore, hafter⟩ := pending_goto hb (.toEnd l)
    rw [hs] at hbefore
    rw [toClose_toEnd] at hafter
    show (ClientCache.cached d' ++ ((M.goto b block (.toEnd l)).pending ++ M.closed)).Perm
      (List.range M.created)
    refine List.Perm.trans ?_ h.all
    rw [List.perm_iff_count]
    intro c
    have h₀ := (cached_giveBack settings now block.url client M.clients).count_eq c
    have h₁ := hev.cached.count_eq c
    have h₂ := hbefore.count_eq c
    have h₃ := hafter.count_eq c
    simp only [List.count_append, BorrowStage.toClose, List.count_nil] at h₀ h₁ h₂ h₃ ⊢
    omega

/-! ### The other steps -/

/-- A block goes on and holds the client that it held; what it has closed is no longer pending. -/
theorem Safe.goto (h : M.Safe) (hb : M.blocks[b]? = some block) (l : List ℕ)
    (hholds : ∀ c, stage.holds c = block.stage.holds c)
    (hclose : block.stage.toClose = l ++ stage.toClose) :
    ({ M with closed := M.closed ++ l }.goto b block stage).Safe := by
  have hkept : ({ M with closed := M.closed ++ l }.goto b block stage).Kept :=
    (h.toKept.closes _).goto hb (fun c hc => hholds c ▸ hc) fun _ _ _ => hholds _
  refine { toKept := hkept, there := ?_, busyCached := h.busyCached, all := ?_ }
  · intro x hx c hc
    rcases mem_goto hx with hx | rfl
    · exact h.there x hx c hc
    · exact h.there block (List.mem_of_getElem? hb) c (hholds c ▸ hc)
  · obtain ⟨others, hbefore, hafter⟩ := pending_goto hb stage
    show (M.clients.cached ++ ((M.goto b block stage).pending ++ (M.closed ++ l))).Perm
      (List.range M.created)
    refine List.Perm.trans ?_ h.all
    rw [List.perm_iff_count]
    intro c
    rw [hclose] at hbefore
    have h₀ := hbefore.count_eq c
    have h₁ := hafter.count_eq c
    simp only [List.count_append] at h₀ h₁ ⊢
    omega

/-- A body starts a request with the client that its block holds. -/
theorem Safe.bump (h : M.Safe) (hb : M.blocks[b]? = some block) {client : ℕ}
    (hs : block.stage = .opened client) : (M.bump client).Safe := by
  refine { toKept := h.toKept.bump client, there := h.there, busyCached := ?_, all := h.all }
  intro c hc
  by_cases hclient : c = client
  · obtain ⟨e, he, heq⟩ := h.there block (List.mem_of_getElem? hb) client (by
      rw [hs]
      exact beq_self_eq_true client)
    exact mem_cached.mpr ⟨block.url, e, he, heq.trans hclient.symm⟩
  · change 0 < Function.update M.busy client _ c at hc
    rw [Function.update_of_ne hclient] at hc
    exact h.busyCached c hc

theorem Safe.answered (h : M.Safe) (client : ℕ) :
    Safe { M with busy := Function.update M.busy client (M.busy client - 1) } := by
  refine { toKept := ⟨h.books, h.held⟩, there := h.there, busyCached := ?_, all := h.all }
  intro c hc
  apply h.busyCached
  change 0 < Function.update M.busy client _ c at hc
  rw [Function.update_apply] at hc
  split at hc
  · rename_i hclient
    rw [hclient]
    omega
  · exact hc

theorem Safe.call (h : M.Safe) (url : Text) :
    Safe { M with blocks := M.blocks ++ [{ url := url }] } := by
  refine { toKept := h.toKept.opens fun _ => rfl, there := ?_, busyCached := h.busyCached, all := ?_ }
  · intro x hx c hc
    rcases List.mem_append.mp hx with hx | hx
    · exact h.there x hx c hc
    · rw [List.mem_singleton.mp hx] at hc
      cases hc
  · have hpending : pending { M with blocks := M.blocks ++ [{ url := url }] } = M.pending := by
      show (M.blocks ++ [_]).flatMap _ = M.blocks.flatMap _
      rw [List.flatMap_append]
      exact List.append_nil _
    show (M.clients.cached ++ (pending _ ++ M.closed)).Perm (List.range M.created)
    rw [hpending]
    exact h.all

theorem Safe.init : Safe {} :=
  { toKept := Kept.init, there := nofun, busyCached := nofun, all := List.Perm.refl _ }

theorem Safe.moves {a : BlockMove} (h : M.Safe) (hb : M.blocks[b]? = some block)
    (hok : M.Calm (.move b a)) (hmove : BlockMoves settings M b block a M') : M'.Safe := by
  cases hmove with
  | enter now hs => exact h.borrow hb hs now
  | leave client now hs => exact h.release hb hs now
  | request client hs => exact h.bump hb hs
  | refuse hs =>
      have hnext : ({ M with closed := M.closed ++ [] }.goto b block .ended).Safe := by
        apply h.goto hb
        · intro c
          rw [hs]
          rfl
        · rw [hs]
          rfl
      rw [List.append_nil] at hnext
      exact hnext
  | failLast toClose hs => exact hok.elim
  | failFirst client toClose hs => exact hok.elim
  | closeFirst client c toClose hs =>
      apply h.goto hb
      · intro c'
        rw [hs, holds_toBody]
        rfl
      · rw [hs, toClose_toBody]
        rfl
  | closeLast c toClose hs =>
      apply h.goto hb
      · intro c'
        rw [hs, holds_toEnd]
        rfl
      · rw [hs, toClose_toEnd]
        rfl

theorem Safe.step {a : BorrowAction} (h : M.Safe) (hok : M.Calm a)
    (hstep : M.step settings a = some M') : M'.Safe := by
  cases a with
  | call url =>
      cases hstep
      exact h.call url
  | move b a =>
      obtain ⟨block, hblock, hmove⟩ := Option.bind_eq_some_iff.mp hstep
      exact h.moves hblock hok (moveBlock_cases hmove)
  | answered client =>
      simp only [ClientManager.step] at hstep
      split at hstep
      · cases hstep
        exact h.answered client
      · cases hstep
  | closeAll => exact hok.elim

/-! ### The closes come to an end -/

/-- A block with something to close closes its first client and goes on. -/
theorem closes_next (settings : CacheSettings) {c : ℕ} {l : List ℕ} (hb : M.blocks[b]? = some block)
    (hclose : block.stage.toClose = c :: l) :
    ∃ stage, stage.toClose = l ∧ M.step settings (.move b .closes) =
      some ({ M with closed := M.closed ++ [c] }.goto b block stage) := by
  simp only [ClientManager.step, hb, Option.bind_some, moveBlock]
  cases hs : block.stage with
  | opening client toClose =>
      rw [hs] at hclose
      change toClose = c :: l at hclose
      subst hclose
      exact ⟨_, toClose_toBody client l, rfl⟩
  | closing toClose =>
      rw [hs] at hclose
      change toClose = c :: l at hclose
      subst hclose
      exact ⟨_, toClose_toEnd l, rfl⟩
  | validating | opened _ | ended =>
      rw [hs] at hclose
      cases hclose

/-- From any state the awaited closes can return one after the other until none is left. -/
theorem closes_out (n : ℕ) (M : ClientManager) (hn : M.pending.length = n) :
    ∃ as M', Machine.Runs (ClientManager.step settings) (fun _ a => ∃ b, a = .move b .closes)
      M as M' ∧ M'.pending = [] ∧ M'.clients = M.clients ∧ M'.created = M.created := by
  induction n generalizing M with
  | zero => exact ⟨[], M, .nil M, List.eq_nil_of_length_eq_zero hn, rfl, rfl⟩
  | succ n ih =>
      obtain ⟨c, hc⟩ := List.exists_mem_of_length_eq_add_one hn
      obtain ⟨block, hblock, hc⟩ := List.mem_flatMap.mp hc
      obtain ⟨b, hb⟩ := List.getElem?_of_mem hblock
      obtain ⟨c₀, l, hclose⟩ := List.exists_cons_of_ne_nil (List.ne_nil_of_mem hc)
      obtain ⟨stage, hstage, hstep⟩ := closes_next settings hb hclose
      obtain ⟨others, hbefore, hafter⟩ := pending_goto hb stage
      have hlength : ({ M with closed := M.closed ++ [c₀] }.goto b block stage).pending.length = n := by
        have h₀ := hbefore.length_eq
        have h₁ : (M.goto b block stage).pending.length = _ := hafter.length_eq
        rw [hclose] at h₀
        rw [hstage] at h₁
        simp only [List.length_append, List.length_cons] at h₀ h₁
        show (M.goto b block stage).pending.length = n
        omega
      obtain ⟨as, M', hruns, hnone, hclients, hcreated⟩ := ih _ hlength
      exact ⟨_, M', .cons ⟨b, rfl⟩ hstep hruns, hnone, hclients, hcreated⟩

/-- Over every run without `close_all` in which no close fails, what is closed or about to be
closed is neither borrowed nor busy, and what has left the cache is closed once: the closes that
are still awaited can all return, and then each such client is among the closed ones once. -/
theorem closed_once {as : List BorrowAction}
    (h : Machine.Runs (ClientManager.step settings) Calm {} as M) :
    M.ClosedSafely ∧ ∃ bs M', Machine.Runs (ClientManager.step settings)
        (fun _ a => ∃ b, a = .move b .closes) M bs M' ∧ M'.ClosedSafely ∧
      M'.clients = M.clients ∧
      ∀ c < M.created, c ∉ M.clients.cached → M'.closed.count c = 1 := by
  have hsafe : M.Safe := h.invariant (fun _ _ _ hs hok hstep => hs.step hok hstep) Safe.init
  obtain ⟨bs, M', hruns, hnone, hclients, hcreated⟩ := closes_out _ M rfl
  have hcalm : Machine.Runs (ClientManager.step settings) Calm M bs M' := by
    apply hruns.mono
    rintro s _ ⟨b, rfl⟩
    trivial
  have hsafe' : M'.Safe := hcalm.invariant (fun _ _ _ hs hok hstep => hs.step hok hstep) hsafe
  refine ⟨hsafe.closedSafely, bs, M', hruns, hsafe'.closedSafely, hclients, ?_⟩
  intro c hc hnot
  have hcount := hsafe'.closedSafely.once c (hcreated ▸ hc) (hclients ▸ hnot)
  rwa [hnone, List.nil_append] at hcount

end ClientManager

theorem succession_closed_once :
    (afterVisits succession (by rfl)).ClosedSafely ∧
      ∃ bs M', Machine.Runs (ClientManager.step oneClient) (fun _ a => ∃ b, a = .move b .closes)
          (afterVisits succession (by rfl)) bs M' ∧ M'.ClosedSafely ∧
        M'.clients = (afterVisits succession (by rfl)).clients ∧
        ∀ c < (afterVisits succession (by rfl)).created,
          c ∉ (afterVisits succession (by rfl)).clients.cached → M'.closed.count c = 1 :=
  ClientManager.closed_once
    (Machine.runs_of_run (by simp [succession, visit, ClientManager.Calm]) (Machine.run_after (by rfl)))

end OpencodeA2a.Server
