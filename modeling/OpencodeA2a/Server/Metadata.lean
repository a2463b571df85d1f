import OpencodeA2a.Library.Entries
import OpencodeA2a.Stream.Json

/-!
# Request and payload metadata

What a metadata field holds is loosely typed. `metadata_access.py` reads one value
under a namespace and a path of keys; the two readers of a request, the handler's
extension gate and the executor, both go through it.
-/

namespace OpencodeA2a.Stream.Mapping

/-! ## §1  Setting and dropping keys -/

/-- `m.pop(key, None)` -/
def pop (m : Mapping) (key : Text) : Mapping := m.filter fun e => e.1 ≠ key

theorem lookup_set (m : Mapping) (key : Text) (value : Json) (j : Text) :
    (m.set key value).lookup j = if j = key then some value else m.lookup j :=
  Entries.lookup_set m key value j

theorem lookup_pop (m : Mapping) (key j : Text) :
    (m.pop key).lookup j = if j = key then none else m.lookup j := by
  unfold pop
  induction m with
  | nil =>
      show none = _
      split <;> rfl
  | cons e m ih =>
      rw [Entries.lookup_cons_ite]
      by_cases he : e.1 = key
      · rw [List.filter_cons_of_neg (by simp [he]), ih, he]
        split <;> rfl
      · rw [List.filter_cons_of_pos (by simp [he]), Entries.lookup_cons_ite, ih]
        by_cases hj : j = key
        · rw [if_pos hj, if_pos hj, if_neg fun hje => he (hje.symm.trans hj)]
        · rw [if_neg hj, if_neg hj]

theorem get?_set (m : Mapping) (key : Text) (value : Json) (k : String) :
    (m.set key value).get? k = if k.toList = key then some value else m.get? k :=
  lookup_set m key value k.toList

theorem get?_pop (m : Mapping) (key : Text) (k : String) :
    (m.pop key).get? k = if k.toList = key then none else m.get? k :=
  lookup_pop m key k.toList

theorem getMapping?_eq_some {m n : Mapping} {key : String} :
    m.getMapping? key = some n ↔ m.get? key = some (.obj n) := by
  unfold getMapping?
  cases m.get? key with
  | none => simp
  | some v => cases v <;> simp [Json.asMapping?]

end OpencodeA2a.Stream.Mapping

namespace OpencodeA2a.Server

open OpencodeA2a.Stream

/-! ## §2  Reading a namespaced value

`Json.null` is Python's `None`, and `Json.obj` a dictionary or a protobuf `Struct`,
which `_normalize_mapping` turns into one.
-/

/-- `m.get(key)` -/
def getOrNone (m : Mapping) (key : String) : Json := (m.get? key).getD .null

/-- The loop over the path. -/
def followPath : Json → List String → Json
  | current, [] => current
  | current, part :: path =>
      match current.asMapping? with
      | none => .null
      | some m => followPath (getOrNone m part) path

def extractNamespacedValue (source : Json) (namespace' : String) (path : List String) : Json :=
  match source.asMapping? with
  | none => .null
  | some m =>
      match (getOrNone m namespace').asMapping? with
      | none => .null
      | some current => followPath (.obj current) path

/-- The first source that has text there which is not blank. -/
def extractFirstNamespacedString :
    List Json → String → List String → Option Text
  | [], _, _ => none
  | source :: sources, namespace', path =>
      match (extractNamespacedValue source namespace' path).asStr?.bind nonempty? with
      | some value => some value
      | none => extractFirstNamespacedString sources namespace' path

/-- A string found is a value that stands in one of the sources. -/
theorem extractFirstNamespacedString_eq_some {sources : List Json} {namespace' : String}
    {path : List String} {value : Text}
    (h : extractFirstNamespacedString sources namespace' path = some value) :
    ∃ source ∈ sources, ∃ t, extractNamespacedValue source namespace' path = .str t := by
  induction sources with
  | nil => cases h
  | cons source sources ih =>
      unfold extractFirstNamespacedString at h
      split at h
      · rename_i value' hfound
        obtain ⟨t, ht, -⟩ := Option.bind_eq_some_iff.mp hfound
        refine ⟨source, List.mem_cons_self, t, ?_⟩
        cases hv : extractNamespacedValue source namespace' path <;> rw [hv] at ht <;> cases ht
        rfl
      · obtain ⟨source', hmem, ht⟩ := ih h
        exact ⟨source', List.mem_cons_of_mem _ hmem, ht⟩

end OpencodeA2a.Server
