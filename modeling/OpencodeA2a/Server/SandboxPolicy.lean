import OpencodeA2a.Library.PosixPath
import OpencodeA2a.Library.Table
import OpencodeA2a.Stream.Json

/-!
# The sandbox policy

`sandbox_policy.py`: which directory a request may name, and which of the dangerous
operations a deployment allows at all. A directory is compared with the workspace after
`Path.resolve()`, so that neither `..` nor a link leads out of it.
-/

namespace OpencodeA2a.Server

open OpencodeA2a.Stream (Text)
open OpencodeA2a.PosixPath

/-! ## §1  Paths and the file system -/

/-- `Path.resolve()`, with the text of its `ValueError`. A loop of links, for which older
versions of Python raise another error, is left out. -/
structure FileSystem where
  resolve : Path → Except Text Path
  isAbsolute_resolve : ∀ p q, resolve p = .ok q → q.isAbsolute = true
  resolve_resolved : ∀ p q, resolve p = .ok q → resolve q = .ok q

/-- A file system without links. -/
def FileSystem.linkless (cwd : Path) (h : cwd.isAbsolute = true) : FileSystem where
  resolve := fun p => .ok (p.joinTo cwd).normalize
  isAbsolute_resolve := by
    rintro p q ⟨⟩
    exact isAbsolute_joinTo h
  resolve_resolved := by
    rintro p q ⟨⟩
    have habsolute : (p.joinTo cwd).normalize.isAbsolute = true := isAbsolute_joinTo h
    rw [joinTo_of_isAbsolute habsolute, Path.normalize_normalize]

/-! ## §2  The policy -/

inductive SandboxMode where
  | unknown
  | readOnly
  | workspaceWrite
  | dangerFullAccess
  | custom
deriving DecidableEq

inductive FilesystemScope where
  | unknown
  | workspaceOnly
  | workspaceAndDeclaredRoots
  | unrestricted
  | custom
deriving DecidableEq

inductive WriteAccessScope where
  | unknown
  | none
  | workspaceOnly
  | workspaceAndDeclaredRoots
  | unrestricted
  | custom
deriving DecidableEq

structure SandboxSettings where
  opencodeWorkspaceRoot : Option Text
  allowDirectoryOverride : Bool
  sandboxMode : SandboxMode
  filesystemScope : FilesystemScope
  writableRoots : List Text
  writeAccessScope : WriteAccessScope

structure SandboxPolicy (fs : FileSystem) where
  workspaceRoot : Path
  resolved : fs.resolve workspaceRoot = .ok workspaceRoot
  allowDirectoryOverride : Bool
  sandboxMode : SandboxMode
  filesystemScope : FilesystemScope
  writableRoots : List Path
  writeAccessScope : WriteAccessScope

/-- The root in its resolved form. -/
def FileSystem.resolveRoot (fs : FileSystem) (p : Path) :
    Except Text { q : Path // fs.resolve q = .ok q } :=
  match h : fs.resolve p with
  | .ok q => .ok ⟨q, fs.resolve_resolved p q h⟩
  | .error e => .error e

/-- The text, if there is one that is not empty. -/
def truthy (t : Option Text) : Option Text := t.filter (· ≠ [])

/-- `SandboxPolicy.from_settings` -/
def SandboxPolicy.fromSettings (fs : FileSystem) (settings : SandboxSettings) (cwd : Text)
    (workspaceRoot : Option Text) : Except Text (SandboxPolicy fs) := do
  let base := (((truthy workspaceRoot).or (truthy settings.opencodeWorkspaceRoot)).getD cwd)
  let roots ← (settings.writableRoots.filter fun r => r.strip ≠ []).mapM fun r =>
    fs.resolve (ofText r)
  let ⟨root, hroot⟩ ← fs.resolveRoot (ofText base)
  return {
    workspaceRoot := root
    resolved := hroot
    allowDirectoryOverride := settings.allowDirectoryOverride
    sandboxMode := settings.sandboxMode
    filesystemScope := settings.filesystemScope
    writableRoots := roots
    writeAccessScope := settings.writeAccessScope }

namespace SandboxPolicy

variable {fs : FileSystem} (policy : SandboxPolicy fs)

/-- What a request without a directory gets. -/
def basePath (defaultDirectory : Option Text) : Except Text Path :=
  match truthy defaultDirectory with
  | some t => fs.resolve (ofText t)
  | none => .ok policy.workspaceRoot

/-- The last part of `resolve_directory`, once the requested text has become a path. -/
def admitPath (base : Path) (text : Text) (path : Path) : Except Text Text :=
  if !policy.allowDirectoryOverride then
    if path = base then .ok base.toText
    else .error "Directory override is disabled by service configuration".toList
  else if path.isWithin base then .ok path.toText
  else .error ("Directory ".toList ++ text ++ " is outside the allowed workspace ".toList ++
    base.toText)

/-- `resolve_directory`; the error is the text of the `ValueError`. -/
def resolveDirectory (defaultDirectory requested : Option Text) : Except Text Text := do
  let base ← policy.basePath defaultDirectory
  match requested.bind Stream.nonempty? with
  | none => return base.toText
  | some text => policy.admitPath base text (← fs.resolve ((ofText text).joinTo base))

/-- `is_session_shell_enabled`, and `is_workspace_mutations_enabled` with it. -/
def allowsMutations (enabledByConfig : Bool) : Bool :=
  enabledByConfig && policy.sandboxMode ≠ .readOnly && policy.writeAccessScope ≠ .none

/-- `validate_configuration` -/
def validateConfiguration : Except Text Unit :=
  if policy.writeAccessScope = .none ∧ policy.writableRoots ≠ [] then
    .error "Declared writable roots are incompatible with A2A_WRITE_ACCESS_SCOPE=none".toList
  else if policy.writeAccessScope = .workspaceOnly ∨ policy.filesystemScope = .workspaceOnly then
    let outside := policy.writableRoots.filter fun r => !r.isWithin policy.workspaceRoot
    if outside = [] then .ok ()
    else
      .error (("Declared writable roots must stay within the workspace root when " ++
        "the configured scope is workspace_only: ").toList ++
        (", ".toList).intercalate (outside.map Path.toText))
  else .ok ()

end SandboxPolicy

/-! ## §3  The directory that a request gets -/

section Directory

variable {fs : FileSystem} {policy : SandboxPolicy fs} {defaultDirectory requested : Option Text}
  {base path : Path} {directory : Text}

theorem SandboxPolicy.resolve_basePath (h : policy.basePath defaultDirectory = .ok base) :
    fs.resolve base = .ok base := by
  unfold basePath at h
  split at h
  · exact fs.resolve_resolved _ _ h
  · cases h
    exact policy.resolved

/-- The path is the base, or it is under it and the policy lets a request choose. -/
def SandboxPolicy.Admits (policy : SandboxPolicy fs) (base path : Path) : Prop :=
  path = base ∨ policy.allowDirectoryOverride = true ∧ path.isWithin base = true

/-- The path that the request names, before links are followed. -/
def namedPath (base : Path) (requested : Option Text) : Path :=
  match requested.bind Stream.nonempty? with
  | none => base
  | some text => (ofText text).joinTo base

theorem SandboxPolicy.admitPath_eq_ok {text : Text} :
    policy.admitPath base text path = .ok directory ↔
      policy.Admits base path ∧ directory = path.toText := by
  unfold admitPath Admits
  cases policy.allowDirectoryOverride with
  | false =>
      rw [if_pos (show (!false) = true from rfl)]
      split
      · rename_i hpath
        rw [hpath, Except.ok.injEq]
        exact ⟨fun h => ⟨.inl rfl, h.symm⟩, fun h => h.2.symm⟩
      · rename_i hpath
        refine iff_of_false (by rintro ⟨⟩) ?_
        rintro ⟨hbase | ⟨⟨⟩, -⟩, -⟩
        exact hpath hbase
  | true =>
      rw [if_neg (show ¬ (!true) = true by decide)]
      split
      · rename_i hwithin
        rw [Except.ok.injEq]
        exact ⟨fun h => ⟨.inr ⟨rfl, hwithin⟩, h.symm⟩, fun h => h.2.symm⟩
      · rename_i hwithin
        refine iff_of_false (by rintro ⟨⟩) ?_
        rintro ⟨rfl | ⟨-, hin⟩, -⟩
        · exact hwithin (isWithin_refl path)
        · exact hwithin hin

/-- A request gets the directory that it names, resolved, and gets it exactly when the policy
admits that directory. -/
theorem SandboxPolicy.resolveDirectory_eq_ok (hbase : policy.basePath defaultDirectory = .ok base) :
    policy.resolveDirectory defaultDirectory requested = .ok directory ↔
      ∃ path, fs.resolve (namedPath base requested) = .ok path ∧ policy.Admits base path ∧
        directory = path.toText := by
  unfold resolveDirectory namedPath
  rw [hbase]
  show (match requested.bind Stream.nonempty? with | none => _ | some text => _) = _ ↔ _
  cases requested.bind Stream.nonempty? with
  | none =>
      constructor
      · intro h
        cases h
        exact ⟨base, resolve_basePath hbase, .inl rfl, rfl⟩
      · rintro ⟨path, hpath, -, rfl⟩
        cases (resolve_basePath hbase).symm.trans hpath
        rfl
  | some text =>
      refine bind_eq_ok.trans (exists_congr fun path => and_congr_right fun _ => ?_)
      exact admitPath_eq_ok

/-- The directory is written in its resolved form, and the policy admits it. -/
def SandboxPolicy.Confined (policy : SandboxPolicy fs) (defaultDirectory : Option Text)
    (directory : Text) : Prop :=
  ∃ base, policy.basePath defaultDirectory = .ok base ∧
    fs.resolve (ofText directory) = .ok (ofText directory) ∧
    (ofText directory).toText = directory ∧ policy.Admits base (ofText directory)

/-- Whatever a request names, the directory that it gets lies within the workspace. -/
theorem SandboxPolicy.confined_of_resolveDirectory
    (h : policy.resolveDirectory defaultDirectory requested = .ok directory) :
    policy.Confined defaultDirectory directory := by
  obtain ⟨base, hbase, -⟩ := bind_eq_ok.mp h
  obtain ⟨path, hpath, hadmits, rfl⟩ := (resolveDirectory_eq_ok hbase).mp h
  refine ⟨base, hbase, ?_, ?_, ?_⟩
  · rw [ofText_toText]
    exact fs.resolve_resolved _ _ hpath
  · rw [ofText_toText]
  · rwa [ofText_toText]

theorem SandboxPolicy.Confined.ne_nil (h : policy.Confined defaultDirectory directory) :
    directory ≠ [] := by
  obtain ⟨-, -, -, htext, -⟩ := h
  rw [← htext]
  exact toText_ne_nil _

end Directory

end OpencodeA2a.Server
