import OpencodeA2a.Extension.Projections
import OpencodeA2a.Library.Exposition

/-!
# Whether a result can be sent

`JSONResponse` renders with `allow_nan=False`: a number that is no finite double is a
`ValueError`. `json.loads` takes such numbers, as `1e999` or `NaN`, and a payload of the upstream
server may hold one. Most projections let no number through that is not an integer.
-/

namespace OpencodeA2a.Extension

open OpencodeA2a.Stream (Text Json Mapping extractOptionalString)
open OpencodeA2a.Exposition (readSign readFraction readExponent)

/-! ## §1  Finite numbers -/

/-- From here on the nearest double is an infinity: half a unit above the largest finite one. -/
def overflowThreshold : ℕ := 2 ^ 1024 - 2 ^ 970

/-- `m * 10 ^ e` is below the threshold. -/
def isBelowThreshold (m : ℕ) (e : ℤ) : Bool :=
  m * 10 ^ e.toNat < overflowThreshold * 10 ^ (-e).toNat

/-- The literal of a finite double, which `NaN` and `Infinity` are not. -/
def isFiniteLiteral (lit : Text) : Bool :=
  let t := (readSign lit).2
  let whole := t.takeWhile Char.isDigit
  let (fraction, behind) := readFraction (t.dropWhile Char.isDigit)
  whole ≠ [] && (readExponent behind).any fun e =>
    isBelowThreshold (Nat.ofDigitChars 10 (whole ++ fraction) 0) (e - fraction.length)

example : ["-1.5", "0.0", "1e308", "1.7976931348623158e308"].all
    (fun s => isFiniteLiteral s.toList) = true := by decide +kernel

example : ["1e999", "-1e309", "1.7976931348623159e308", "NaN", "-Infinity"].any
    (fun s => isFiniteLiteral s.toList) = false := by decide +kernel

mutual

/-- Every number of the value is finite. -/
def renderable : Json → Bool
  | .float lit _ => isFiniteLiteral lit
  | .arr items => renderableItems items
  | .obj entries => renderableEntries entries
  | .null | .bool _ | .int _ | .str _ => true

def renderableItems : List Json → Bool
  | [] => true
  | j :: items => renderable j && renderableItems items

def renderableEntries : List (Text × Json) → Bool
  | [] => true
  | (_, j) :: entries => renderable j && renderableEntries entries

end

attribute [simp] renderable renderableItems renderableEntries

theorem renderableItems_iff {items : List Json} :
    renderableItems items = true ↔ ∀ j ∈ items, renderable j = true := by
  induction items with
  | nil => simp
  | cons j items ih => simp [ih]

theorem renderableEntries_iff {entries : Mapping} :
    renderableEntries entries = true ↔ ∀ e ∈ entries, renderable e.2 = true := by
  induction entries with
  | nil => simp
  | cons e entries ih => simp [ih]

@[simp] theorem renderableEntries_append (m m' : Mapping) :
    renderableEntries (m ++ m') = (renderableEntries m && renderableEntries m') := by
  induction m with
  | nil => rfl
  | cons e m ih => simp [ih, Bool.and_assoc]

theorem renderable_of_get? {m : Mapping} {key : String} {j : Json}
    (hm : renderableEntries m = true) (h : m.get? key = some j) : renderable j = true := by
  obtain ⟨before, after, hsplit, -⟩ := List.lookup_eq_some_iff.mp h
  exact renderableEntries_iff.mp hm (key.toList, j) (by rw [hsplit]; simp)

/-! ## §2  Entries -/

section Entries

variable {m : Mapping} {key : String} {value : Option Json}

@[simp] theorem renderable_strEntry (t : Text) : renderable (strEntry key t).2 = true := rfl

theorem renderable_optionalEntry (h : ∀ j, value = some j → renderable j = true) :
    renderableEntries (optionalEntry key value) = true := by
  cases value with
  | none => rfl
  | some j => simp [optionalEntry, h j rfl]

/-- A value that is let through only where it has a property. -/
theorem renderable_filtered {p : Json → Bool} (hp : ∀ j, p j = true → renderable j = true) :
    renderableEntries (optionalEntry key (value.filter p)) = true :=
  renderable_optionalEntry fun j h => hp j (Option.filter_eq_some_iff.mp h).2

theorem renderable_of_isInt (j : Json) (h : isInt j = true) : renderable j = true := by
  cases j with
  | float lit isZero | arr items | obj entries => cases h
  | null | bool b | int n | str s => rfl

theorem renderable_of_isBool (j : Json) (h : isBool j = true) : renderable j = true := by
  cases j with
  | float lit isZero | arr items | obj entries => cases h
  | null | bool b | int n | str s => rfl

@[simp] theorem renderable_textEntry (t : Option Text) :
    renderableEntries (optionalEntry key (t.map .str)) = true := by
  cases t <;> rfl

@[simp] theorem renderable_renamed (m : Mapping) (source target : String) :
    renderableEntries (renamed m source target) = true :=
  renderable_textEntry _

end Entries

/-! ## §3  What the projections let through -/

theorem renderable_asA2aSessionTask {session item : Json} (h : asA2aSessionTask session = some item) :
    renderable item = true := by
  obtain ⟨sessionId, -, rfl⟩ := Option.map_eq_some_iff.mp h
  rfl

theorem renderable_asA2aMessage {sessionId : Text} {raw item : Json}
    (h : asA2aMessage sessionId raw = some item) : renderable item = true := by
  obtain ⟨m, -, h⟩ := Option.bind_eq_some_iff.mp h
  obtain ⟨messageId, -, h⟩ := Option.bind_eq_some_iff.mp h
  cases h
  rfl

theorem renderableItems_filterMap {f : Json → Option Json}
    (hf : ∀ j item, f j = some item → renderable item = true) (items : List Json) :
    renderableItems (items.filterMap f) = true := by
  refine renderableItems_iff.mpr fun item hitem => ?_
  obtain ⟨j, -, hj⟩ := List.mem_filterMap.mp hitem
  exact hf j item hj

theorem renderable_todoItem {raw item : Json} (h : todoItem raw = some item) :
    renderable item = true := by
  obtain ⟨m, -, h⟩ := Option.bind_eq_some_iff.mp h
  obtain ⟨values, hvalues, h⟩ := Option.bind_eq_some_iff.mp h
  cases h
  have hall : ∀ (keys : List String) (values : Mapping),
      (keys.mapM fun key => (extractOptionalString m key).map fun t => strEntry key t) = some values →
      renderableEntries values = true := by
    intro keys
    induction keys with
    | nil =>
        rintro values ⟨⟩
        rfl
    | cons key keys ih =>
        intro values h
        rw [List.mapM_cons] at h
        obtain ⟨entry, hentry, h⟩ := Option.bind_eq_some_iff.mp h
        obtain ⟨rest, hrest, h⟩ := Option.bind_eq_some_iff.mp h
        cases h
        obtain ⟨t, -, rfl⟩ := Option.map_eq_some_iff.mp hentry
        exact ih rest hrest
  exact hall _ _ hvalues

theorem renderable_diffItem {raw item : Json} (h : diffItem raw = some item) :
    renderable item = true := by
  obtain ⟨m, -, h⟩ := Option.bind_eq_some_iff.mp h
  obtain ⟨file, -, h⟩ := Option.bind_eq_some_iff.mp h
  cases h
  simp [renderable_filtered renderable_of_isInt]

theorem renderable_revertEntry (session : Mapping) :
    renderableEntries (revertEntry session) = true := by
  unfold revertEntry
  split
  · rfl
  · dsimp only
    split
    · rfl
    · simp

theorem renderable_normalizeSessionSummary {raw : Json} {sessionId : Text} {item : Mapping}
    (h : normalizeSessionSummary raw = .ok (sessionId, item)) : renderableEntries item = true := by
  obtain ⟨session, -, h⟩ := bind_eq_ok.mp h
  split at h
  · cases h
  · cases h
    cases session.getMapping? "share" <;> simp [renderable_revertEntry]

theorem renderable_statusItem {rawSessionId : Text} {rawStatus item : Json}
    (hstatus : renderable rawStatus = true) (h : statusItem rawSessionId rawStatus = some item) :
    renderable item = true := by
  obtain ⟨sessionId, -, h⟩ := Option.bind_eq_some_iff.mp h
  obtain ⟨status, hobj, h⟩ := Option.bind_eq_some_iff.mp h
  obtain ⟨statusType, -, h⟩ := Option.bind_eq_some_iff.mp h
  cases h
  have hentries : renderableEntries status = true := by
    cases rawStatus with
    | obj entries =>
        cases hobj
        exact hstatus
    | null | bool b | int n | float lit isZero | str s | arr items => cases hobj
  have hnext : renderableEntries (optionalEntry "next" ((status.get? "next").filter isNumber)) =
      true :=
    renderable_optionalEntry fun j hj =>
      renderable_of_get? hentries (Option.filter_eq_some_iff.mp hj).1
  simp [renderable_filtered renderable_of_isInt, hnext]

/-- The statuses let a number through where the payload has it. -/
theorem renderable_normalizeSessionStatusItems {raw : Json} {items : List Json}
    (hraw : renderable raw = true) (h : normalizeSessionStatusItems raw = .ok items) :
    renderableItems items = true := by
  obtain ⟨statuses, hstatuses, h⟩ := bind_eq_ok.mp h
  cases h
  have hentries : renderableEntries statuses = true := by
    cases raw with
    | obj entries =>
        cases hstatuses
        exact hraw
    | null | bool b | int n | float lit isZero | str s | arr items => cases hstatuses
  refine renderableItems_iff.mpr fun item hitem => ?_
  obtain ⟨e, he, hitem⟩ := List.mem_filterMap.mp hitem
  exact renderable_statusItem
    (renderableEntries_iff.mp hentries e ((List.mem_insertionSort _).mp he)) hitem

namespace Catalog

variable {catalog : Catalog} {item : Mapping}

theorem renderable_providerSummary {provider : Mapping}
    (h : catalog.providerSummary provider = some item) : renderableEntries item = true := by
  obtain ⟨providerId, -, rfl⟩ := Option.map_eq_some_iff.mp h
  simp

theorem renderable_modelSummary {providerId : Text} {entry : Text × Json}
    (h : catalog.modelSummary providerId entry = some item) : renderableEntries item = true := by
  obtain ⟨modelId, -, h⟩ := Option.bind_eq_some_iff.mp h
  obtain ⟨model, -, h⟩ := Option.bind_eq_some_iff.mp h
  cases h
  have hlimits : renderableEntries (limitEntries model) = true := by
    unfold limitEntries
    split
    · rfl
    · simp [renderable_filtered renderable_of_isInt]
  have hcapabilities : renderableEntries (capabilityEntries model) = true := by
    unfold capabilityEntries
    split
    · rfl
    · simp [renderable_filtered renderable_of_isBool]
  simp [hlimits, hcapabilities]

end Catalog

end OpencodeA2a.Extension
