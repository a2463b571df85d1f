import OpencodeA2a.Client.NetworkPolicy
import OpencodeA2a.Library.Table
import OpencodeA2a.Server.OutputModes
import Mathlib.Data.List.DropRight

/-!
# The Origin boundary

`add_http_boundary_middleware` of `server/middleware.py`. A header's value is what the server
decodes from its bytes, so its characters are of ISO-8859-1, whose letters `str.lower` lowers
one by one; of other texts it is a parameter, as are the brackets and the normal forms that
`urlsplit` lets pass.
-/

namespace OpencodeA2a.Server

open OpencodeA2a.Stream OpencodeA2a.Client

/-! ## §1  URLs -/

/-- `str.lower` for a character of ISO-8859-1 -/
def lowerLatin1 (c : Char) : Char :=
  if 65 ≤ c.toNat ∧ c.toNat ≤ 90 ∨ 192 ≤ c.toNat ∧ c.toNat ≤ 222 ∧ c.toNat ≠ 215 then
    Char.ofNat (c.toNat + 32)
  else c

def IsLatin1 (t : Text) : Prop := ∀ c ∈ t, c.toNat < 256

structure WebTexts extends Network where
  lower_latin1 : ∀ t, IsLatin1 t → lower t = t.map lowerLatin1

/-- The `ValueError` of `urlsplit`. -/
inductive UrlError where
  | valueError
deriving DecidableEq

/-- The text of the port in `_hostinfo`. -/
def portText (parsed : SplitResult) : Text :=
  if parsed.hostinfo.contains '[' then
    ((((parsed.hostinfo.dropWhile (· ≠ '[')).tail.dropWhile (· ≠ ']')).tail).dropWhile
      (· ≠ ':')).tail
  else (parsed.hostinfo.dropWhile (· ≠ ':')).tail

/-- `port`, where `none` is its `ValueError` -/
def port (parsed : SplitResult) : Option (Option ℕ) :=
  if portText parsed = [] then some none
  else if (portText parsed).all Char.isDigit then
    let n := Nat.ofDigitChars 10 (portText parsed) 0
    if n ≤ 65535 then some (some n) else none
  else none

def originText (scheme hostname : Text) (port : Option ℕ) : Text :=
  scheme ++ "://".toList ++ hostname ++
    match port with
    | none => []
    | some n =>
        if scheme = "http".toList ∧ n = 80 ∨ scheme = "https".toList ∧ n = 443 then []
        else ':' :: Nat.toDigits 10 n

section Boundary

variable (net : WebTexts)

/-- `_origin_of_url`, behind `urlsplit` -/
def originOfSplit (parsed : SplitResult) : Option Text :=
  let scheme := net.lower parsed.scheme
  let hostname := parsed.hostname net.toNetwork
  if scheme ∉ ["http".toList, "https".toList] ∨ hostname = [] then none
  else (port parsed).map fun port => originText scheme (net.lower hostname) port

/-- `_origin_of_url`, which does not catch what `urlsplit` raises -/
def originOfUrl (value : Text) : Except UrlError (Option Text) :=
  match urlsplit net.toNetwork (Text.strip value) with
  | none => .error .valueError
  | some parsed => .ok (originOfSplit net parsed)

/-- `value.strip().lower().rstrip("/")` -/
def normalizedOrigin (value : Text) : Text := (net.lower (Text.strip value)).rdropWhile (· = '/')

/-- `_normalized_origins` -/
def normalizedOrigins (values : List Text) : List Text :=
  (values.map (normalizedOrigin net)).filter (· ≠ [])

/-! ## §2  The middleware -/

structure BoundarySettings where
  allowedOrigins : List Text
  publicUrl : Text
  allowedHosts : List Text

/-- What a request is answered with, or its being passed on. -/
inductive BoundaryAnswer where
  | rejected (status : ℕ) (message : Text)
  | passedOn
deriving DecidableEq

/-- `_boundary_rejection_response` -/
def boundaryRejection (message : String) : BoundaryAnswer := .rejected 403 message.toList

variable (settings : BoundarySettings)

/-- `add_http_boundary_middleware`, up to the middleware: `allowed_origins`. Each entry is parsed,
for a warning. -/
def allowedTexts : Except UrlError (List Text) :=
  ((normalizedOrigins net settings.allowedOrigins).mapM (originOfUrl net)).bind fun _ =>
    (originOfUrl net settings.publicUrl).map fun publicOrigin =>
      normalizedOrigins net settings.allowedOrigins ++ publicOrigin.toList

/-- Whether the header passes the check of the origin. -/
def originPasses (allowed : List Text) (origin : Text) : Except UrlError Bool :=
  if normalizedOrigin net origin ∈ allowed then .ok true
  else (originOfUrl net origin).map fun canonical => canonical.any (· ∈ allowed)

/-- `_hostname_from_host_header` -/
def hostnameFromHostHeader (host : Text) : Text :=
  match urlsplit net.toNetwork ("//".toList ++ Text.strip host) with
  | none => []
  | some parsed => net.lower (parsed.hostname net.toNetwork)

/-- `host_header_allowed` -/
def hostHeaderAllowed (host : Text) : Bool :=
  ((settings.allowedHosts.filter fun entry => Text.strip entry ≠ []).map fun entry =>
    net.lower (Text.strip entry)).contains (net.lower (Text.strip host))

/-- The check of the `Host` header. -/
def hostPasses (host : Text) : Bool :=
  let hostname := hostnameFromHostHeader net host
  settings.allowedHosts.isEmpty || !hostname.isEmpty &&
    (hostHeaderAllowed net settings host ||
      matchesAllowedHost net.toNetwork hostname settings.allowedHosts)

/-- `enforce_http_boundary` -/
def enforceHttpBoundary (allowed : List Text) (origin host : Option Text) :
    Except UrlError BoundaryAnswer :=
  (origin.elim (.ok true) (originPasses net allowed)).map fun passes =>
    if !passes then boundaryRejection "Cross-origin request rejected"
    else if !hostPasses net settings (host.getD []) then boundaryRejection "Host not allowed"
    else .passedOn

/-! ## §3  The claim of the boundary -/

/-- Two texts have one canonical origin. -/
def SameOrigin (a b : Text) : Prop :=
  ∃ o, originOfUrl net a = .ok (some o) ∧ originOfUrl net b = .ok (some o)

/-- A request with the header is answered, and gets past the check of the origin exactly if its
origin is that of the public URL or of an entry. -/
def ExactAt (origin : Text) (host : Option Text) : Prop :=
  ∃ allowed answer, allowedTexts net settings = .ok allowed ∧
    enforceHttpBoundary net settings allowed (some origin) host = .ok answer ∧
    (answer ≠ boundaryRejection "Cross-origin request rejected" ↔
      SameOrigin net origin settings.publicUrl ∨
        ∃ e ∈ normalizedOrigins net settings.allowedOrigins, SameOrigin net origin e)

/-- A text that is its own canonical origin, without blanks around it. -/
def Canonical (t : Text) : Prop := Text.strip t = t ∧ originOfUrl net t = .ok (some t)

/-- The texts a header is compared with. -/
def Compared (t : Text) : Prop :=
  originOfUrl net settings.publicUrl = .ok (some t) ∨
    t ∈ normalizedOrigins net settings.allowedOrigins

/-- The header, or its canonical origin, is written like a text it is compared with that is not
canonical. -/
def WrittenLike (origin : Text) : Prop :=
  ∃ t, Compared net settings t ∧ ¬ Canonical net t ∧
    (normalizedOrigin net origin = t ∨ originOfUrl net origin = .ok (some t))

/-- The header has the origin of an entry that is not canonical. -/
def OriginOfUncanonical (origin : Text) : Prop :=
  ∃ e ∈ normalizedOrigins net settings.allowedOrigins, ¬ Canonical net e ∧ SameOrigin net origin e

/-- The header has the origin of the public URL or of a canonical entry. -/
def OriginOfCanonical (origin : Text) : Prop :=
  SameOrigin net origin settings.publicUrl ∨
    ∃ e ∈ normalizedOrigins net settings.allowedOrigins, Canonical net e ∧ SameOrigin net origin e

/-- The inputs on which the boundary is exact. -/
structure Told (origin : Text) : Prop where
  /-- `urlsplit` does not raise on an entry -/
  entries : ∀ e ∈ normalizedOrigins net settings.allowedOrigins, originOfUrl net e ≠ .error .valueError
  /-- nor on the header -/
  header : originOfUrl net origin ≠ .error .valueError
  /-- an entry that is not canonical is compared as a text -/
  spelling : OriginOfCanonical net settings origin ∨
    (WrittenLike net settings origin ↔ OriginOfUncanonical net settings origin)

end Boundary

/-! ## §4  Letter case -/

theorem toNat_lowerLatin1 (c : Char) : (lowerLatin1 c).toNat =
    if 65 ≤ c.toNat ∧ c.toNat ≤ 90 ∨ 192 ≤ c.toNat ∧ c.toNat ≤ 222 ∧ c.toNat ≠ 215 then
      c.toNat + 32
    else c.toNat := by
  unfold lowerLatin1
  split
  · rename_i h
    have hvalid : (c.toNat + 32).isValidChar := Or.inl (by omega)
    unfold Char.ofNat
    rw [dif_pos hvalid]
    show (UInt32.ofNatLT (c.toNat + 32) _).toNat = c.toNat + 32
    exact UInt32.toNat_ofNatLT
  · rfl

theorem lowerLatin1_lowerLatin1 (c : Char) : lowerLatin1 (lowerLatin1 c) = lowerLatin1 c := by
  apply Char.toNat_inj.mp
  rw [toNat_lowerLatin1, toNat_lowerLatin1]
  split_ifs <;> omega

/-- A character that is no letter is lowered from itself only. -/
theorem lowerLatin1_eq_iff {a : Char} (ha : a.toNat < 65 ∨ 90 < a.toNat ∧ a.toNat < 97) (c : Char) :
    lowerLatin1 c = a ↔ c = a := by
  rw [← Char.toNat_inj, ← Char.toNat_inj, toNat_lowerLatin1]
  split_ifs <;> omega

/-- A test that letter case does not matter to. -/
def CaseBlind (p : Char → Bool) : Prop := ∀ c, p (lowerLatin1 c) = p c

theorem caseBlind_ne {a : Char} (ha : a.toNat < 65 ∨ 90 < a.toNat ∧ a.toNat < 97) :
    CaseBlind fun c => c ≠ a := by
  intro c
  exact decide_eq_decide.mpr (not_congr (lowerLatin1_eq_iff ha c))

theorem CaseBlind.and {p q : Char → Bool} (hp : CaseBlind p) (hq : CaseBlind q) :
    CaseBlind fun c => p c && q c := by
  intro c
  show (p (lowerLatin1 c) && q (lowerLatin1 c)) = _
  rw [hp c, hq c]

theorem caseBlind_isSpace : CaseBlind isSpace := by
  intro c
  rw [Bool.eq_iff_iff]
  unfold isSpace
  simp only [Bool.or_eq_true, Bool.and_eq_true, decide_eq_true_eq, beq_iff_eq, toNat_lowerLatin1]
  split_ifs <;> omega

theorem isAlpha_iff {c : Char} : c.isAlpha = true ↔
    65 ≤ c.toNat ∧ c.toNat ≤ 90 ∨ 97 ≤ c.toNat ∧ c.toNat ≤ 122 := by
  change (decide (c.val ≥ 'A'.val ∧ c.val ≤ 'Z'.val) ||
    c.val ≥ 'a'.val && c.val ≤ 'z'.val) = true ↔ _
  simp [UInt32.le_iff_toNat_le]

theorem caseBlind_isAlpha : CaseBlind Char.isAlpha := by
  intro c
  rw [Bool.eq_iff_iff, isAlpha_iff, isAlpha_iff, toNat_lowerLatin1]
  split_ifs <;> omega

theorem caseBlind_isDigit : CaseBlind Char.isDigit := by
  intro c
  rw [Bool.eq_iff_iff]
  simp only [Char.isDigit, Bool.and_eq_true, decide_eq_true_eq, ge_iff_le, UInt32.le_iff_toNat_le]
  show 48 ≤ (lowerLatin1 c).toNat ∧ (lowerLatin1 c).toNat ≤ 57 ↔ 48 ≤ c.toNat ∧ c.toNat ≤ 57
  rw [toNat_lowerLatin1]
  split_ifs <;> omega

theorem lowerLatin1_of_isDigit {c : Char} (h : c.isDigit = true) : lowerLatin1 c = c := by
  simp only [Char.isDigit, Bool.and_eq_true, decide_eq_true_eq, ge_iff_le,
    UInt32.le_iff_toNat_le] at h
  have hnine : c.toNat ≤ 57 := h.2
  apply Char.toNat_inj.mp
  rw [toNat_lowerLatin1, if_neg (by omega)]

theorem caseBlind_isSchemeChar : CaseBlind isSchemeChar := by
  intro c
  unfold isSchemeChar Char.isAlphanum
  rw [caseBlind_isAlpha c, caseBlind_isDigit c]
  have hbeq : ∀ {a : Char}, a.toNat < 65 → (lowerLatin1 c == a) = (c == a) := by
    intro a ha
    rw [Bool.eq_iff_iff, beq_iff_eq, beq_iff_eq]
    exact lowerLatin1_eq_iff (Or.inl ha) c
  rw [hbeq (by decide), hbeq (by decide), hbeq (by decide)]

variable {p : Char → Bool} {t : Text}

theorem CaseBlind.takeWhile (hp : CaseBlind p) (t : Text) :
    (t.map lowerLatin1).takeWhile p = (t.takeWhile p).map lowerLatin1 := by
  rw [List.takeWhile_map]
  exact congrArg (fun q => (t.takeWhile q).map lowerLatin1) (funext hp)

theorem CaseBlind.dropWhile (hp : CaseBlind p) (t : Text) :
    (t.map lowerLatin1).dropWhile p = (t.dropWhile p).map lowerLatin1 := by
  rw [List.dropWhile_map]
  exact congrArg (fun q => (t.dropWhile q).map lowerLatin1) (funext hp)

theorem CaseBlind.filter (hp : CaseBlind p) (t : Text) :
    (t.map lowerLatin1).filter p = (t.filter p).map lowerLatin1 := by
  rw [List.filter_map]
  exact congrArg (fun q => (t.filter q).map lowerLatin1) (funext hp)

theorem CaseBlind.all (hp : CaseBlind p) (t : Text) : (t.map lowerLatin1).all p = t.all p := by
  rw [List.all_map]
  exact congrArg (fun q => t.all q) (funext hp)

theorem CaseBlind.rdropWhile (hp : CaseBlind p) (t : Text) :
    (t.map lowerLatin1).rdropWhile p = (t.rdropWhile p).map lowerLatin1 := by
  unfold List.rdropWhile
  rw [← List.map_reverse, hp.dropWhile, List.map_reverse]

theorem strip_map_lowerLatin1 (t : Text) :
    Text.strip (t.map lowerLatin1) = (Text.strip t).map lowerLatin1 := by
  unfold Text.strip Strip.strip
  rw [caseBlind_isSpace.dropWhile, caseBlind_isSpace.rdropWhile]

theorem contains_map_lowerLatin1 {a : Char} (ha : a.toNat < 65 ∨ 90 < a.toNat ∧ a.toNat < 97)
    (t : Text) : (t.map lowerLatin1).contains a = t.contains a := by
  rw [Bool.eq_iff_iff, List.contains_iff_mem, List.contains_iff_mem, List.mem_map]
  constructor
  · rintro ⟨c, hc, hca⟩
    rwa [← (lowerLatin1_eq_iff ha c).mp hca]
  · exact fun h => ⟨a, h, (lowerLatin1_eq_iff ha a).mpr rfl⟩

/-! ## §5  The parts of a URL -/

/-- The characters that `urlsplit` looks at. -/
def cleaned (url : Text) : Text :=
  (url.dropWhile fun c => c.toNat ≤ 32).filter fun c => c ≠ '\t' && c ≠ '\n' && c ≠ '\r'

/-- Whether a text begins with a scheme. -/
def hasScheme (url : Text) : Bool :=
  url.contains ':' && ((url.takeWhile (· ≠ ':')).head?.any Char.isAlpha) &&
    (url.takeWhile (· ≠ ':')).all isSchemeChar

def netlocEnd (c : Char) : Bool := c ≠ '/' && c ≠ '?' && c ≠ '#'

/-- `urlsplit`, behind the scheme -/
def splitNetloc (net : Network) (scheme rest : Text) : Option SplitResult :=
  match rest with
  | '/' :: '/' :: rest =>
      if (rest.takeWhile netlocEnd).contains '[' ≠ (rest.takeWhile netlocEnd).contains ']' ||
          !net.validNetloc (rest.takeWhile netlocEnd) then none
      else some ⟨scheme, rest.takeWhile netlocEnd⟩
  | _ => some ⟨scheme, []⟩

theorem urlsplit_eq (net : Network) (url : Text) : urlsplit net url =
    if hasScheme (cleaned url) then
      splitNetloc net (((cleaned url).takeWhile (· ≠ ':')).map Char.toLower)
        ((cleaned url).dropWhile (· ≠ ':')).tail
    else splitNetloc net [] (cleaned url) := by
  unfold urlsplit
  split_ifs with hscheme
  · unfold hasScheme cleaned at hscheme
    simp only [hscheme, if_true]
    rfl
  · unfold hasScheme cleaned at hscheme
    simp only [hscheme]
    rfl

theorem splitNetloc_slashes (net : Network) (scheme rest : Text) :
    splitNetloc net scheme ('/' :: '/' :: rest) =
      if (rest.takeWhile netlocEnd).contains '[' ≠ (rest.takeWhile netlocEnd).contains ']' ||
          !net.validNetloc (rest.takeWhile netlocEnd) then none
      else some ⟨scheme, rest.takeWhile netlocEnd⟩ := rfl

theorem splitNetloc_other (net : Network) (scheme : Text) {rest : Text}
    (h : ∀ after, rest ≠ '/' :: '/' :: after) : splitNetloc net scheme rest = some ⟨scheme, []⟩ := by
  unfold splitNetloc
  split
  · exact absurd rfl (h _)
  · rfl

theorem splitNetloc_eq_some {net : Network} {scheme rest : Text} {parsed : SplitResult}
    (h : splitNetloc net scheme rest = some parsed) :
    parsed.scheme = scheme ∧ ((∀ after, rest ≠ '/' :: '/' :: after) ∧ parsed.netloc = [] ∨
      ∃ after, rest = '/' :: '/' :: after ∧ parsed.netloc = after.takeWhile netlocEnd) := by
  by_cases hslashes : ∃ after, rest = '/' :: '/' :: after
  · obtain ⟨after, rfl⟩ := hslashes
    rw [splitNetloc_slashes] at h
    split at h
    · cases h
    · obtain rfl := Option.some.inj h
      exact ⟨rfl, Or.inr ⟨after, rfl, rfl⟩⟩
  · have hother := not_exists.mp hslashes
    rw [splitNetloc_other net scheme hother] at h
    obtain rfl := Option.some.inj h
    exact ⟨rfl, Or.inl ⟨hother, rfl⟩⟩

theorem caseBlind_netlocEnd : CaseBlind netlocEnd :=
  ((caseBlind_ne (by decide)).and (caseBlind_ne (by decide))).and (caseBlind_ne (by decide))

/-- The lowered text begins with two slashes exactly if the text does. -/
theorem slashes_map {rest after : Text} (h : rest.map lowerLatin1 = '/' :: '/' :: after) :
    ∃ after', rest = '/' :: '/' :: after' ∧ after = after'.map lowerLatin1 := by
  obtain ⟨a, rest, rfl, ha, hrest⟩ := List.map_eq_cons_iff.mp h
  obtain ⟨b, after', rfl, hb, hafter⟩ := List.map_eq_cons_iff.mp hrest
  rw [(lowerLatin1_eq_iff (by decide) a).mp ha, (lowerLatin1_eq_iff (by decide) b).mp hb]
  exact ⟨after', rfl, hafter.symm⟩

theorem splitNetloc_map {net : Network} {scheme rest : Text} {parsed parsed' : SplitResult}
    (h : splitNetloc net scheme rest = some parsed)
    (h' : splitNetloc net scheme (rest.map lowerLatin1) = some parsed') :
    parsed'.scheme = parsed.scheme ∧ parsed'.netloc = parsed.netloc.map lowerLatin1 := by
  obtain ⟨hscheme, hnetloc⟩ := splitNetloc_eq_some h
  obtain ⟨hscheme', hnetloc'⟩ := splitNetloc_eq_some h'
  refine ⟨hscheme'.trans hscheme.symm, ?_⟩
  rcases hnetloc with ⟨hother, hnil⟩ | ⟨after, rfl, hafter⟩
  · rcases hnetloc' with ⟨-, hnil'⟩ | ⟨after', hrest, -⟩
    · rw [hnil, hnil']
      rfl
    · obtain ⟨after, hslashes, -⟩ := slashes_map hrest
      exact absurd hslashes (hother after)
  · rcases hnetloc' with ⟨hother', -⟩ | ⟨after', hrest, hafter'⟩
    · exact absurd rfl (hother' (after.map lowerLatin1))
    · obtain ⟨after'', hslashes, rfl⟩ := slashes_map hrest
      obtain rfl : after = after'' := List.tail_eq_of_cons_eq (List.tail_eq_of_cons_eq hslashes)
      rw [hafter, hafter', caseBlind_netlocEnd.takeWhile]

theorem cleaned_map (url : Text) : cleaned (url.map lowerLatin1) = (cleaned url).map lowerLatin1 := by
  have hcontrol : CaseBlind fun c => c.toNat ≤ 32 := by
    intro c
    apply decide_eq_decide.mpr
    rw [toNat_lowerLatin1]
    split_ifs <;> omega
  have hunsafe : CaseBlind fun c => c ≠ '\t' && c ≠ '\n' && c ≠ '\r' :=
    ((caseBlind_ne (by decide)).and (caseBlind_ne (by decide))).and (caseBlind_ne (by decide))
  unfold cleaned
  rw [hcontrol.dropWhile, hunsafe.filter]

theorem head?_any_map (hp : CaseBlind p) (t : Text) :
    (t.map lowerLatin1).head?.any p = t.head?.any p := by
  cases t with
  | nil => rfl
  | cons c t => exact hp c

theorem hasScheme_map (url : Text) : hasScheme (url.map lowerLatin1) = hasScheme url := by
  have hcolon : CaseBlind fun c => c ≠ ':' := caseBlind_ne (by decide)
  unfold hasScheme
  rw [hcolon.takeWhile, contains_map_lowerLatin1 (by decide), head?_any_map caseBlind_isAlpha,
    caseBlind_isSchemeChar.all]

/-- Letters of a scheme are lowered to one letter. -/
theorem toLower_lowerLatin1 {c : Char} (h : isSchemeChar c = true) :
    (lowerLatin1 c).toLower = c.toLower := by
  have hascii : c.toNat < 128 := by
    unfold isSchemeChar Char.isAlphanum at h
    simp only [Bool.or_eq_true, isAlpha_iff, beq_iff_eq, Char.isDigit, Bool.and_eq_true,
      decide_eq_true_eq, ge_iff_le, UInt32.le_iff_toNat_le] at h
    rcases h with (((h | h) | rfl) | rfl) | rfl
    · omega
    · have hnine : c.toNat ≤ 57 := h.2
      omega
    · decide
    · decide
    · decide
  apply Char.toNat_inj.mp
  rw [toNat_toLower, toNat_toLower, toNat_lowerLatin1]
  split_ifs <;> omega

theorem urlsplit_map {net : Network} {url : Text} {parsed parsed' : SplitResult}
    (h : urlsplit net url = some parsed) (h' : urlsplit net (url.map lowerLatin1) = some parsed') :
    parsed'.scheme = parsed.scheme ∧ parsed'.netloc = parsed.netloc.map lowerLatin1 := by
  have hcolon : CaseBlind fun c => c ≠ ':' := caseBlind_ne (by decide)
  rw [urlsplit_eq, cleaned_map, hasScheme_map] at h'
  rw [urlsplit_eq] at h
  split at h
  · rename_i hscheme
    rw [if_pos hscheme, hcolon.takeWhile, hcolon.dropWhile, ← List.map_tail] at h'
    have hlower : (((cleaned url).takeWhile (· ≠ ':')).map lowerLatin1).map Char.toLower =
        ((cleaned url).takeWhile (· ≠ ':')).map Char.toLower := by
      rw [List.map_map]
      refine List.map_congr_left fun c hc => toLower_lowerLatin1 ?_
      unfold hasScheme at hscheme
      rw [Bool.and_eq_true] at hscheme
      exact List.all_eq_true.mp hscheme.2 c hc
    rw [hlower] at h'
    exact splitNetloc_map h h'
  · rename_i hscheme
    rw [if_neg hscheme] at h'
    exact splitNetloc_map h h'

/-! ## §6  Origins and letter case -/

variable (net : WebTexts) {parsed parsed' : SplitResult}

theorem IsLatin1.sublist {t' : Text} (h : IsLatin1 t) (hsub : t'.Sublist t) : IsLatin1 t' :=
  fun c hc => h c (hsub.subset hc)

theorem IsLatin1.map (h : IsLatin1 t) : IsLatin1 (t.map lowerLatin1) := by
  intro a ha
  obtain ⟨c, hc, rfl⟩ := List.mem_map.mp ha
  have hlt := h c hc
  rw [toNat_lowerLatin1]
  split_ifs <;> omega

theorem map_lowerLatin1_twice (t : Text) :
    (t.map lowerLatin1).map lowerLatin1 = t.map lowerLatin1 := by
  rw [List.map_map]
  exact List.map_congr_left fun c _ => lowerLatin1_lowerLatin1 c

theorem hostinfo_map (h : parsed'.netloc = parsed.netloc.map lowerLatin1) :
    parsed'.hostinfo = parsed.hostinfo.map lowerLatin1 := by
  have hat : CaseBlind fun c => c ≠ '@' := caseBlind_ne (by decide)
  unfold SplitResult.hostinfo
  rw [h, ← List.map_reverse, hat.takeWhile, List.map_reverse]

/-- The host of a netloc, as it is written. -/
def rawHost (parsed : SplitResult) : Text :=
  if parsed.hostinfo.contains '[' then
    ((parsed.hostinfo.dropWhile (· ≠ '[')).tail).takeWhile (· ≠ ']')
  else parsed.hostinfo.takeWhile (· ≠ ':')

theorem hostname_eq (net : Network) (parsed : SplitResult) : parsed.hostname net =
    net.lower ((rawHost parsed).takeWhile (· ≠ '%')) ++ (rawHost parsed).dropWhile (· ≠ '%') := rfl

theorem rawHost_map (h : parsed'.netloc = parsed.netloc.map lowerLatin1) :
    rawHost parsed' = (rawHost parsed).map lowerLatin1 := by
  have hopen : CaseBlind fun c => c ≠ '[' := caseBlind_ne (by decide)
  have hclose : CaseBlind fun c => c ≠ ']' := caseBlind_ne (by decide)
  have hcolon : CaseBlind fun c => c ≠ ':' := caseBlind_ne (by decide)
  unfold rawHost
  rw [hostinfo_map h, contains_map_lowerLatin1 (by decide), hopen.dropWhile, ← List.map_tail,
    hclose.takeWhile, hcolon.takeWhile]
  split
  · rfl
  · rfl

theorem portText_map (h : parsed'.netloc = parsed.netloc.map lowerLatin1) :
    portText parsed' = (portText parsed).map lowerLatin1 := by
  have hopen : CaseBlind fun c => c ≠ '[' := caseBlind_ne (by decide)
  have hclose : CaseBlind fun c => c ≠ ']' := caseBlind_ne (by decide)
  have hcolon : CaseBlind fun c => c ≠ ':' := caseBlind_ne (by decide)
  unfold portText
  rw [hostinfo_map h, contains_map_lowerLatin1 (by decide), hopen.dropWhile, ← List.map_tail,
    hclose.dropWhile, ← List.map_tail, hcolon.dropWhile, ← List.map_tail, hcolon.dropWhile,
    ← List.map_tail]
  split
  · rfl
  · rfl

theorem port_map (h : parsed'.netloc = parsed.netloc.map lowerLatin1) :
    port parsed' = port parsed := by
  have hdigits : (portText parsed).all Char.isDigit = true →
      (portText parsed).map lowerLatin1 = portText parsed := by
    intro hall
    refine (List.map_congr_left fun c hc => ?_).trans (List.map_id _)
    exact lowerLatin1_of_isDigit (List.all_eq_true.mp hall c hc)
  unfold port
  rw [portText_map h, caseBlind_isDigit.all]
  simp only [List.map_eq_nil_iff]
  split
  · rfl
  · split
    · rename_i hall
      rw [hdigits hall]
    · rfl

theorem hostinfo_sublist (parsed : SplitResult) : parsed.hostinfo.Sublist parsed.netloc := by
  have h := (List.takeWhile_sublist (p := fun c => c ≠ '@') (l := parsed.netloc.reverse)).reverse
  rwa [List.reverse_reverse] at h

theorem rawHost_sublist (parsed : SplitResult) : (rawHost parsed).Sublist parsed.netloc := by
  refine List.Sublist.trans ?_ (hostinfo_sublist parsed)
  unfold rawHost
  split
  · exact (List.takeWhile_sublist _).trans
      ((List.tail_sublist _).trans (List.dropWhile_sublist _))
  · exact List.takeWhile_sublist _

/-- The host of a netloc of ISO-8859-1, in lower case. -/
theorem lower_hostname (h : IsLatin1 parsed.netloc) :
    net.lower (parsed.hostname net.toNetwork) = (rawHost parsed).map lowerLatin1 ∧
      (parsed.hostname net.toNetwork = [] ↔ rawHost parsed = []) := by
  have hhost := h.sublist (rawHost_sublist parsed)
  have htake : IsLatin1 ((rawHost parsed).takeWhile (· ≠ '%')) :=
    hhost.sublist (List.takeWhile_sublist _)
  have hdrop : IsLatin1 ((rawHost parsed).dropWhile (· ≠ '%')) :=
    hhost.sublist (List.dropWhile_sublist _)
  rw [hostname_eq, net.lower_latin1 _ htake]
  constructor
  · have hlatin : IsLatin1 (((rawHost parsed).takeWhile (· ≠ '%')).map lowerLatin1 ++
        (rawHost parsed).dropWhile (· ≠ '%')) := by
      intro c hc
      rcases List.mem_append.mp hc with hc | hc
      · exact htake.map c hc
      · exact hdrop c hc
    rw [net.lower_latin1 _ hlatin, List.map_append, map_lowerLatin1_twice, ← List.map_append,
      List.takeWhile_append_dropWhile]
  · rw [List.append_eq_nil_iff, List.map_eq_nil_iff, ← List.append_eq_nil_iff,
      List.takeWhile_append_dropWhile]

theorem originOfSplit_map (hlatin : IsLatin1 parsed.netloc) (hscheme : parsed'.scheme = parsed.scheme)
    (h : parsed'.netloc = parsed.netloc.map lowerLatin1) :
    originOfSplit net parsed' = originOfSplit net parsed := by
  have hlatin' : IsLatin1 parsed'.netloc := by
    rw [h]
    exact hlatin.map
  obtain ⟨hname, hempty⟩ := lower_hostname net hlatin
  obtain ⟨hname', hempty'⟩ := lower_hostname net hlatin'
  rw [rawHost_map h] at hname' hempty'
  rw [map_lowerLatin1_twice] at hname'
  unfold originOfSplit
  simp only [hscheme, hempty, hempty', List.map_eq_nil_iff, port_map h, hname, hname']

theorem strip_sublist (t : Text) : (Text.strip t).Sublist t :=
  (List.rdropWhile_prefix _ _).sublist.trans (List.dropWhile_sublist _)

theorem netloc_sublist {net : Network} {url : Text} (h : urlsplit net url = some parsed) :
    parsed.netloc.Sublist url := by
  have hcleaned : (cleaned url).Sublist url :=
    List.filter_sublist.trans (List.dropWhile_sublist _)
  have hrest : ∀ {scheme rest : Text}, splitNetloc net scheme rest = some parsed →
      parsed.netloc.Sublist rest := by
    intro scheme rest hsplit
    obtain ⟨-, ⟨-, hnil⟩ | ⟨after, rfl, hnetloc⟩⟩ := splitNetloc_eq_some hsplit
    · rw [hnil]
      exact List.nil_sublist _
    · rw [hnetloc]
      exact ((List.takeWhile_sublist _).cons _).cons _
  rw [urlsplit_eq] at h
  split at h
  · exact (hrest h).trans
      ((List.tail_sublist _).trans ((List.dropWhile_sublist _).trans hcleaned))
  · exact (hrest h).trans hcleaned

/-- Where `urlsplit` raises on neither, a text and the text in lower case have one origin. -/
theorem originOfUrl_lower (hlatin : IsLatin1 t) (h : originOfUrl net t ≠ .error .valueError)
    (h' : originOfUrl net (t.map lowerLatin1) ≠ .error .valueError) :
    originOfUrl net (t.map lowerLatin1) = originOfUrl net t := by
  unfold originOfUrl at *
  rw [strip_map_lowerLatin1] at *
  cases hsplit : urlsplit net.toNetwork (Text.strip t) with
  | none =>
      rw [hsplit] at h
      exact absurd rfl h
  | some parsed =>
      cases hsplit' : urlsplit net.toNetwork ((Text.strip t).map lowerLatin1) with
      | none =>
          rw [hsplit'] at h'
          exact absurd rfl h'
      | some parsed' =>
          obtain ⟨hscheme, hnetloc⟩ := urlsplit_map hsplit hsplit'
          have hlatin : IsLatin1 parsed.netloc :=
            hlatin.sublist ((netloc_sublist hsplit).trans (strip_sublist t))
          simp only
          rw [originOfSplit_map net hlatin hscheme hnetloc]

/-! ## §7  Slashes behind an origin -/

/-- Slashes at the end of a text that has a colon. -/
theorem append_slashes {v : Text} (h : ':' ∈ v) (k : ℕ) :
    (v ++ List.replicate k '/').takeWhile (· ≠ ':') = v.takeWhile (· ≠ ':') ∧
      ((v ++ List.replicate k '/').dropWhile (· ≠ ':')).tail =
        (v.dropWhile (· ≠ ':')).tail ++ List.replicate k '/' := by
  induction v with
  | nil => cases h
  | cons c v ih =>
      by_cases hc : c = ':'
      · subst hc
        exact ⟨rfl, rfl⟩
      · have hv : ':' ∈ v := List.mem_of_ne_of_mem (Ne.symm hc) h
        obtain ⟨htake, hdrop⟩ := ih hv
        simp only [List.cons_append, List.takeWhile_cons, List.dropWhile_cons, ne_eq, hc,
          not_false_eq_true, decide_true, if_true] at htake hdrop ⊢
        exact ⟨congrArg _ htake, hdrop⟩

theorem takeWhile_netlocEnd_slashes (after : Text) (k : ℕ) :
    (after ++ List.replicate k '/').takeWhile netlocEnd = after.takeWhile netlocEnd := by
  induction after with
  | nil =>
      cases k with
      | zero => rfl
      | succ k => rfl
  | cons c after ih =>
      rw [List.cons_append, List.takeWhile_cons, List.takeWhile_cons, ih]

/-- Slashes behind a URL with a netloc change nothing before its path. -/
theorem urlsplit_slashes {net : Network} {url : Text} (h : urlsplit net url = some parsed)
    (hscheme : parsed.scheme ≠ []) (hnetloc : parsed.netloc ≠ []) (k : ℕ) :
    urlsplit net (url ++ List.replicate k '/') = some parsed := by
  rw [urlsplit_eq] at h
  split at h
  · rename_i hhas
    have hcolon : ':' ∈ cleaned url := by
      unfold hasScheme at hhas
      rw [Bool.and_eq_true, Bool.and_eq_true] at hhas
      exact List.contains_iff_mem.mp hhas.1.1
    have hsolid : ¬ Strip.Blank (fun c : Char => decide (c.toNat ≤ 32)) url := by
      intro hblank
      unfold cleaned at hcolon
      rw [Strip.Blank.dropWhile hblank] at hcolon
      cases hcolon
    have hslashes : (List.replicate k '/').filter
        (fun c => c ≠ '\t' && c ≠ '\n' && c ≠ '\r') = List.replicate k '/' :=
      List.filter_replicate_of_pos rfl
    have hcleaned : cleaned (url ++ List.replicate k '/') = cleaned url ++ List.replicate k '/' := by
      unfold cleaned
      rw [Strip.dropWhile_append hsolid, List.filter_append, hslashes]
    obtain ⟨htake, hdrop⟩ := append_slashes hcolon k
    have hhas' : hasScheme (cleaned url ++ List.replicate k '/') = true := by
      have hmem : (cleaned url ++ List.replicate k '/').contains ':' = true :=
        List.contains_iff_mem.mpr (List.mem_append_left _ hcolon)
      unfold hasScheme at hhas ⊢
      rw [Bool.and_eq_true, Bool.and_eq_true] at hhas
      rw [htake, hmem, hhas.1.2, hhas.2]
      rfl
    rw [urlsplit_eq, hcleaned, if_pos hhas', htake, hdrop]
    obtain ⟨-, ⟨-, hnil⟩ | ⟨after, hrest, -⟩⟩ := splitNetloc_eq_some h
    · exact absurd hnil hnetloc
    · rw [hrest] at h ⊢
      rw [List.cons_append, List.cons_append, splitNetloc_slashes, takeWhile_netlocEnd_slashes]
      exact h
  · exact absurd (splitNetloc_eq_some h).1 hscheme

/-- What has an origin has a scheme and a netloc. -/
theorem scheme_and_netloc (h : originOfSplit net parsed ≠ none) :
    parsed.scheme ≠ [] ∧ parsed.netloc ≠ [] := by
  have hnil : net.lower [] = [] := net.lower_latin1 [] (List.forall_mem_nil _)
  unfold originOfSplit at h
  simp only at h
  split at h
  · exact absurd rfl h
  · rename_i hgood
    obtain ⟨hscheme, hhost⟩ := not_or.mp hgood
    constructor
    · intro hempty
      rw [hempty, hnil] at hscheme
      exact hscheme (by decide)
    · intro hempty
      have hraw : rawHost parsed = [] := by
        have hsub := rawHost_sublist parsed
        rw [hempty] at hsub
        exact List.sublist_nil.mp hsub
      rw [hostname_eq, hraw] at hhost
      exact hhost (by rw [List.takeWhile_nil, hnil]; rfl)

/-- A canonical origin with slashes behind it has itself for its origin. -/
theorem Canonical.slashes (h : Canonical net t) (k : ℕ) :
    originOfUrl net (t ++ List.replicate k '/') = .ok (some t) := by
  obtain ⟨hstrip, horigin⟩ := h
  have hparsed := horigin
  unfold originOfUrl at hparsed
  rw [hstrip] at hparsed
  cases hsplit : urlsplit net.toNetwork t with
  | none =>
      rw [hsplit] at hparsed
      cases hparsed
  | some parsed =>
      rw [hsplit] at hparsed
      have hsome : originOfSplit net parsed = some t := Except.ok.inj hparsed
      have horigin : originOfSplit net parsed ≠ none := by
        rw [hsome]
        exact Option.some_ne_none t
      obtain ⟨hscheme, hnetloc⟩ := scheme_and_netloc net horigin
      have hne : t ≠ [] := by
        rintro rfl
        exact hnetloc (List.sublist_nil.mp (netloc_sublist hsplit))
      have hcore : Strip.Core isSpace t := ⟨hne, hstrip⟩
      have hstrip' : Text.strip (t ++ List.replicate k '/') = t ++ List.replicate k '/' := by
        cases k with
        | zero =>
            rw [List.replicate_zero, List.append_nil]
            exact hstrip
        | succ k =>
            unfold Text.strip Strip.strip
            rw [Strip.dropWhile_append hcore.not_blank, hcore.dropWhile, List.replicate_succ',
              ← List.append_assoc, List.rdropWhile_concat_neg _ _ _ (by decide)]
      unfold originOfUrl
      rw [hstrip', urlsplit_slashes hsplit hscheme hnetloc k]
      exact hparsed

/-- A header written like a canonical origin has it for its origin. -/
theorem originOfUrl_of_written {origin : Text} (hlatin : IsLatin1 origin)
    (hheader : originOfUrl net origin ≠ .error .valueError)
    (h : Canonical net (normalizedOrigin net origin)) :
    originOfUrl net origin = .ok (some (normalizedOrigin net origin)) := by
  have hstripped : originOfUrl net (Text.strip origin) = originOfUrl net origin := by
    unfold originOfUrl
    rw [Text.strip_strip]
  have hlatin' : IsLatin1 (Text.strip origin) := hlatin.sublist (strip_sublist origin)
  -- the header in lower case is the canonical origin with slashes behind it
  have hwritten : ∃ k, (Text.strip origin).map lowerLatin1 =
      normalizedOrigin net origin ++ List.replicate k '/' := by
    unfold normalizedOrigin
    rw [net.lower_latin1 _ hlatin']
    refine ⟨(((Text.strip origin).map lowerLatin1).rtakeWhile (· = '/')).length, ?_⟩
    have hslashes : ((Text.strip origin).map lowerLatin1).rtakeWhile (· = '/') =
        List.replicate (((Text.strip origin).map lowerLatin1).rtakeWhile (· = '/')).length '/' := by
      rw [List.eq_replicate_length]
      intro c hc
      simpa using List.mem_rtakeWhile_imp hc
    rw [← hslashes, List.rdropWhile_append_rtakeWhile]
  obtain ⟨k, hwritten⟩ := hwritten
  have hslashes := h.slashes net k
  rw [← hwritten] at hslashes
  rw [← hstripped, ← originOfUrl_lower net hlatin' (by rwa [hstripped])
    (by rw [hslashes]; exact fun h => by cases h)]
  exact hslashes

/-! ## §8  Exactness -/

variable {settings : BoundarySettings} {origin : Text}

theorem mapM_ok {α β : Type} {f : α → Except UrlError β} {xs : List α} :
    (∃ ys, xs.mapM f = .ok ys) ↔ ∀ x ∈ xs, f x ≠ .error .valueError := by
  induction xs with
  | nil => exact iff_of_true ⟨[], rfl⟩ (List.forall_mem_nil _)
  | cons x xs ih =>
      rw [List.forall_mem_cons, ← ih, List.mapM_cons]
      constructor
      · rintro ⟨ys, hys⟩
        obtain ⟨y, hy, hothers⟩ := bind_eq_ok.mp hys
        obtain ⟨rest, hrest, -⟩ := bind_eq_ok.mp hothers
        refine ⟨?_, rest, hrest⟩
        rw [hy]
        exact fun h => by cases h
      · rintro ⟨hx, rest, hrest⟩
        cases hfx : f x with
        | error e =>
            cases e
            exact absurd hfx hx
        | ok y => exact ⟨y :: rest, bind_eq_ok.mpr ⟨y, rfl, bind_eq_ok.mpr ⟨rest, hrest, rfl⟩⟩⟩

/-- The middleware is set up exactly if `urlsplit` raises on no entry. -/
theorem allowedTexts_ok {p : Text} (hpublic : originOfUrl net settings.publicUrl = .ok (some p)) :
    (∃ allowed, allowedTexts net settings = .ok allowed) ↔
      ∀ e ∈ normalizedOrigins net settings.allowedOrigins, originOfUrl net e ≠ .error .valueError := by
  rw [← mapM_ok]
  unfold allowedTexts
  rw [hpublic]
  cases (normalizedOrigins net settings.allowedOrigins).mapM (originOfUrl net) with
  | error e => exact iff_of_false (fun ⟨_, h⟩ => by cases h) (fun ⟨_, h⟩ => by cases h)
  | ok origins => exact iff_of_true ⟨_, rfl⟩ ⟨_, rfl⟩

theorem mem_allowedTexts {allowed : List Text} {p : Text}
    (hpublic : originOfUrl net settings.publicUrl = .ok (some p))
    (h : allowedTexts net settings = .ok allowed) (t : Text) :
    t ∈ allowed ↔ Compared net settings t := by
  unfold allowedTexts at h
  rw [hpublic] at h
  cases hentries : (normalizedOrigins net settings.allowedOrigins).mapM (originOfUrl net) with
  | error e =>
      rw [hentries] at h
      cases h
  | ok origins =>
      rw [hentries] at h
      obtain rfl := Except.ok.inj h
      unfold Compared
      rw [hpublic, List.mem_append, or_comm]
      simp [eq_comm]

/-- The header passes exactly if it or its origin is written like a text it is compared with. -/
theorem originPasses_iff {allowed : List Text}
    (hallowed : ∀ t, t ∈ allowed ↔ Compared net settings t) {passes : Bool}
    (h : originPasses net allowed origin = .ok passes) : passes = true ↔
      Compared net settings (normalizedOrigin net origin) ∨
        ∃ o, originOfUrl net origin = .ok (some o) ∧ Compared net settings o := by
  unfold originPasses at h
  split at h
  · rename_i hmem
    obtain rfl := Except.ok.inj h
    exact iff_of_true rfl (Or.inl ((hallowed _).mp hmem))
  · rename_i hmem
    rw [or_iff_right (fun hcompared => hmem ((hallowed _).mpr hcompared))]
    cases hparsed : originOfUrl net origin with
    | error e =>
        rw [hparsed] at h
        cases h
    | ok canonical =>
        rw [hparsed] at h
        obtain rfl := Except.ok.inj h
        cases canonical with
        | none => exact iff_of_false (fun h => by cases h) (fun ⟨_, h, _⟩ => by cases h)
        | some o =>
            show decide (o ∈ allowed) = true ↔ _
            rw [decide_eq_true_eq, hallowed]
            constructor
            · exact fun h => ⟨o, rfl, h⟩
            · rintro ⟨o', ho, h⟩
              obtain rfl := Option.some.inj (Except.ok.inj ho)
              exact h

/-- The request gets past the check of the origin if the header passes. -/
theorem enforce_eq_ok {allowed : List Text} {host : Option Text} {answer : BoundaryAnswer}
    (h : enforceHttpBoundary net settings allowed (some origin) host = .ok answer) :
    ∃ passes, originPasses net allowed origin = .ok passes ∧
      (answer ≠ boundaryRejection "Cross-origin request rejected" ↔ passes = true) := by
  unfold enforceHttpBoundary at h
  change (originPasses net allowed origin).map _ = _ at h
  cases hpasses : originPasses net allowed origin with
  | error e =>
      rw [hpasses] at h
      cases h
  | ok passes =>
      rw [hpasses] at h
      obtain rfl := Except.ok.inj h
      refine ⟨passes, rfl, ?_⟩
      cases passes with
      | false => exact iff_of_false (fun h => h rfl) (fun h => by cases h)
      | true =>
          refine iff_of_true ?_ rfl
          show (if !hostPasses net settings (host.getD []) then boundaryRejection "Host not allowed"
            else .passedOn) ≠ _
          split
          · exact fun h => absurd h (by decide)
          · exact fun h => by cases h

/-- A header on which `urlsplit` does not raise is answered. -/
theorem enforce_answers (settings : BoundarySettings) (allowed : List Text) (host : Option Text)
    (hheader : originOfUrl net origin ≠ .error .valueError) :
    ∃ answer, enforceHttpBoundary net settings allowed (some origin) host = .ok answer := by
  have hpasses : ∃ passes, originPasses net allowed origin = .ok passes := by
    unfold originPasses
    split
    · exact ⟨true, rfl⟩
    · cases hparsed : originOfUrl net origin with
      | error e =>
          cases e
          exact absurd hparsed hheader
      | ok canonical => exact ⟨_, rfl⟩
  obtain ⟨passes, hpasses⟩ := hpasses
  unfold enforceHttpBoundary
  change ∃ answer, (originPasses net allowed origin).map _ = _
  rw [hpasses]
  exact ⟨_, rfl⟩

/-- What the header passes by, and what it should pass by. -/
theorem compared_iff_sameOrigin (hlatin : IsLatin1 origin)
    (hheader : originOfUrl net origin ≠ .error .valueError) :
    ((Compared net settings (normalizedOrigin net origin) ∨
        ∃ o, originOfUrl net origin = .ok (some o) ∧ Compared net settings o) ↔
      (SameOrigin net origin settings.publicUrl ∨
        ∃ e ∈ normalizedOrigins net settings.allowedOrigins, SameOrigin net origin e)) ↔
      (OriginOfCanonical net settings origin ∨
        (WrittenLike net settings origin ↔ OriginOfUncanonical net settings origin)) := by
  by_cases hcanonical : OriginOfCanonical net settings origin
  · refine iff_of_true (iff_of_true ?_ ?_) (Or.inl hcanonical)
    · rcases hcanonical with ⟨o, ho, hpublic⟩ | ⟨e, he, hown, o, ho, hoe⟩
      · exact Or.inr ⟨o, ho, Or.inl hpublic⟩
      · rw [hown.2] at hoe
        obtain rfl := Option.some.inj (Except.ok.inj hoe)
        exact Or.inr ⟨e, ho, Or.inr he⟩
    · rcases hcanonical with hpublic | ⟨e, he, -, hsame⟩
      · exact Or.inl hpublic
      · exact Or.inr ⟨e, he, hsame⟩
  · have hpasses : (Compared net settings (normalizedOrigin net origin) ∨
        ∃ o, originOfUrl net origin = .ok (some o) ∧ Compared net settings o) ↔
        WrittenLike net settings origin := by
      -- a canonical text that is compared with the header's own origin
      have hno : ∀ {t}, originOfUrl net origin = .ok (some t) → Compared net settings t →
          ¬ Canonical net t := by
        rintro t ho (hpublic | hentry) hown
        · exact hcanonical (Or.inl ⟨t, ho, hpublic⟩)
        · exact hcanonical (Or.inr ⟨t, hentry, hown, t, ho, hown.2⟩)
      constructor
      · rintro (hcompared | ⟨o, ho, hcompared⟩)
        · refine ⟨_, hcompared, fun hown => ?_, Or.inl rfl⟩
          exact hno (originOfUrl_of_written net hlatin hheader hown) hcompared hown
        · exact ⟨o, hcompared, hno ho hcompared, Or.inr ho⟩
      · rintro ⟨t, hcompared, -, rfl | ho⟩
        · exact Or.inl hcompared
        · exact Or.inr ⟨t, ho, hcompared⟩
    have hsame : (SameOrigin net origin settings.publicUrl ∨
        ∃ e ∈ normalizedOrigins net settings.allowedOrigins, SameOrigin net origin e) ↔
        OriginOfUncanonical net settings origin := by
      constructor
      · rintro (hpublic | ⟨e, he, hsame⟩)
        · exact absurd (Or.inl hpublic) hcanonical
        · exact ⟨e, he, fun hown => hcanonical (Or.inr ⟨e, he, hown, hsame⟩), hsame⟩
      · rintro ⟨e, he, -, hsame⟩
        exact Or.inr ⟨e, he, hsame⟩
    rw [hpasses, hsame, or_iff_right hcanonical]

/-- For every allowlist, every valid public URL and every header, the check of the origin is
exact and total if and only if `urlsplit` raises on no entry and not on the header, and the
header has the origin of the public URL or of a canonical entry, or is written like an
uncanonical text exactly if it has the origin of an uncanonical entry. -/
theorem origin_boundary_exact_iff
    (hpublic : ∃ p, originOfUrl net settings.publicUrl = .ok (some p)) (hlatin : IsLatin1 origin)
    (host : Option Text) : ExactAt net settings origin host ↔ Told net settings origin := by
  obtain ⟨p, hpublic⟩ := hpublic
  constructor
  · rintro ⟨allowed, answer, hallowed, hanswer, hexact⟩
    obtain ⟨passes, hpasses, hpast⟩ := enforce_eq_ok net hanswer
    have hmem := mem_allowedTexts net hpublic hallowed
    have hpassed := originPasses_iff net hmem hpasses
    have hheader : originOfUrl net origin ≠ .error .valueError := by
      intro hraises
      have hnone : ∀ b, ¬ SameOrigin net origin b := by
        rintro b ⟨o, ho, -⟩
        rw [hraises] at ho
        cases ho
      unfold originPasses at hpasses
      rw [hraises] at hpasses
      split at hpasses
      · obtain rfl := Except.ok.inj hpasses
        rcases hexact.mp (hpast.mpr rfl) with hsame | ⟨e, -, hsame⟩
        · exact hnone _ hsame
        · exact hnone _ hsame
      · cases hpasses
    refine ⟨(allowedTexts_ok net hpublic).mp ⟨allowed, hallowed⟩, hheader, ?_⟩
    rw [← compared_iff_sameOrigin net hlatin hheader, ← hpassed, ← hpast]
    exact hexact
  · rintro ⟨hentries, hheader, hspelling⟩
    obtain ⟨allowed, hallowed⟩ := (allowedTexts_ok net hpublic).mpr hentries
    obtain ⟨answer, hanswer⟩ := enforce_answers net settings allowed host hheader
    obtain ⟨passes, hpasses, hpast⟩ := enforce_eq_ok net hanswer
    have hmem := mem_allowedTexts net hpublic hallowed
    have hpassed := originPasses_iff net hmem hpasses
    refine ⟨allowed, answer, hallowed, hanswer, ?_⟩
    rw [hpast, hpassed]
    exact (compared_iff_sameOrigin net hlatin hheader).mpr hspelling

/-- If every entry is canonical, and so is the origin of the public URL, the check is exact for
every header on which `urlsplit` does not raise. -/
theorem exactAt_of_canonical (hpublic : ∃ p, originOfUrl net settings.publicUrl = .ok (some p))
    (hcanonical : ∀ t, Compared net settings t → Canonical net t) (hlatin : IsLatin1 origin)
    (hheader : originOfUrl net origin ≠ .error .valueError) (host : Option Text) :
    ExactAt net settings origin host := by
  apply (origin_boundary_exact_iff net hpublic hlatin host).mpr
  refine ⟨?_, hheader, Or.inr ?_⟩
  · intro e he
    rw [(hcanonical e (Or.inr he)).2]
    exact fun h => by cases h
  · apply iff_of_false
    · rintro ⟨t, hcompared, hnot, -⟩
      exact hnot (hcanonical t hcompared)
    · rintro ⟨e, he, hnot, -⟩
      exact hnot (hcanonical e (Or.inr he))

/-- A library for ISO-8859-1 that lets every netloc pass whose brackets match. -/
def latinTexts : WebTexts where
  lower := List.map lowerLatin1
  validNetloc _ := true
  ipAddress _ := ⟨false, false, false, false, false, false⟩
  lower_latin1 _ _ := rfl

/-- An allowlist with a default port in it. -/
def dashboardSettings : BoundarySettings where
  allowedOrigins := ["https://dashboard.example:443".toList]
  publicUrl := "https://a2a.example.com".toList
  allowedHosts := []

theorem origin_boundary_exact_spelling :
    ExactAt latinTexts dashboardSettings "HTTPS://A2A.Example.com:443/".toList none := by
  have hheader : originOfUrl latinTexts "HTTPS://A2A.Example.com:443/".toList =
      .ok (some "https://a2a.example.com".toList) := by rfl
  have hpublic : originOfUrl latinTexts dashboardSettings.publicUrl =
      .ok (some "https://a2a.example.com".toList) := by rfl
  have hall : "HTTPS://A2A.Example.com:443/".toList.all (fun c => c.toNat < 256) = true := by rfl
  have hlatin : IsLatin1 "HTTPS://A2A.Example.com:443/".toList :=
    fun c hc => of_decide_eq_true (List.all_eq_true.mp hall c hc)
  apply (origin_boundary_exact_iff latinTexts ⟨_, hpublic⟩ hlatin none).mpr
  refine ⟨?_, ?_, Or.inl (Or.inl ⟨_, hheader, hpublic⟩)⟩
  · intro e he
    obtain rfl : e = "https://dashboard.example:443".toList := List.mem_singleton.mp he
    exact fun h => by cases h
  · rw [hheader]
    exact fun h => by cases h

/-- An origin with an open bracket raises, and an origin without its default port is rejected
although it is that of an entry. -/
theorem malformed_origin_raises :
    (∃ allowed, allowedTexts latinTexts dashboardSettings = .ok allowed ∧
      enforceHttpBoundary latinTexts dashboardSettings allowed (some "http://[".toList) none =
        .error .valueError) ∧
    ¬ ExactAt latinTexts dashboardSettings "http://[".toList none ∧
    ¬ ExactAt latinTexts dashboardSettings "https://dashboard.example".toList none := by
  have hallowed : allowedTexts latinTexts dashboardSettings =
      .ok ["https://dashboard.example:443".toList, "https://a2a.example.com".toList] := by rfl
  have hraises : enforceHttpBoundary latinTexts dashboardSettings
      ["https://dashboard.example:443".toList, "https://a2a.example.com".toList]
      (some "http://[".toList) none = .error .valueError := by rfl
  have hrejected : enforceHttpBoundary latinTexts dashboardSettings
      ["https://dashboard.example:443".toList, "https://a2a.example.com".toList]
      (some "https://dashboard.example".toList) none =
        .ok (boundaryRejection "Cross-origin request rejected") := by rfl
  refine ⟨⟨_, hallowed, hraises⟩, ?_, ?_⟩
  · rintro ⟨allowed, answer, h, hanswer, -⟩
    rw [hallowed] at h
    obtain rfl := Except.ok.inj h
    rw [hraises] at hanswer
    cases hanswer
  · rintro ⟨allowed, answer, h, hanswer, hexact⟩
    rw [hallowed] at h
    obtain rfl := Except.ok.inj h
    rw [hrejected] at hanswer
    obtain rfl := Except.ok.inj hanswer
    refine hexact.mpr (Or.inr ⟨"https://dashboard.example:443".toList, ?_, ?_⟩) rfl
    · exact List.mem_singleton_self _
    · exact ⟨"https://dashboard.example".toList, by rfl, by rfl⟩

end OpencodeA2a.Server
