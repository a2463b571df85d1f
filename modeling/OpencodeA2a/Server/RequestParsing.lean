import Mathlib.Tactic.IntervalCases
import OpencodeA2a.Extension.Methods
import OpencodeA2a.Extension.Params
import OpencodeA2a.Server.OriginBoundary

/-!
# What the middlewares read

`request_parsing.py`, `protocol_versions.py`, `trace_context.py` and the checks of
`server/middleware.py` on what they have read. The text of a header is of ISO-8859-1.
-/

namespace OpencodeA2a.Server

open OpencodeA2a.Stream (Text Json Mapping)
open OpencodeA2a.Extension (ExtensionMethod Numerals)

abbrev Bytes : Type := List UInt8

/-- `str.lower` of a header -/
def lowerHeader (t : Text) : Text := t.map lowerLatin1

/-! ## §1  Bodies -/

/-- `_parse_content_length` -/
def parseContentLength (D : Numerals) (value : Option Text) : Option ℤ :=
  (value.bind D.readInt).filter (0 ≤ ·)

/-- `_normalize_content_type` -/
def normalizeContentType (value : Option Text) : Text :=
  lowerHeader (Text.strip ((value.getD []).takeWhile (· ≠ ';')))

/-- `_is_json_content_type` -/
def isJsonContentType (contentType : Text) : Bool :=
  contentType = "application/json".toList || "+json".toList.isSuffixOf contentType

/-- `_looks_like_jsonrpc_envelope` -/
def looksLikeJsonrpcEnvelope (payload : Option Mapping) : Bool :=
  payload.any fun m => (m.getStr? "method").isSome && (m.getStr? "jsonrpc").isSome

/-- `sensitive_methods` -/
def isSensitive (m : ExtensionMethod) : Bool :=
  match m with
  | .discovery _ => false
  | _ => true

/-- `_detect_sensitive_extension_method`; every method is among those of a deployment with all
switches on. -/
def detectSensitiveExtensionMethod (payload : Option Mapping) : Option Text :=
  (payload.bind fun m => m.getStr? "method").filter fun method =>
    ((Extension.Deployment.mk true true).extensionJsonrpcMethods.filter isSensitive).any
      fun m => m.text = method

/-- `_decode_payload_preview`: the bytes that are shown, and whether that is all. -/
def payloadPreview (body : Bytes) (limit : ℤ) : Bytes × Bool :=
  if 0 < limit ∧ limit < body.length then (body.take limit.toNat, false) else (body, true)

/-! ## §2  Messages -/

/-- A part that is written as in older versions of the protocol. -/
def isOldPart : Json → Bool
  | .obj m => ["kind", "type", "file"].any fun key => (Mapping.get? m key).isSome
  | _ => false

/-- The name of a part, by its place. -/
def partField (index : ℕ) : Text :=
  "message.parts[".toList ++ (toString index).toList ++ "]".toList

/-- `_message_shape_violation`: the field, and what is wrong with it. -/
def messageShapeViolation : Option Json → Option (Text × Text)
  | some (.obj m) =>
      if (Mapping.get? m "content").isSome then
        some ("message.content".toList, "message.content is not supported; use message.parts".toList)
      else if Mapping.getStr? m "role" = some "user".toList ∨
          Mapping.getStr? m "role" = some "agent".toList then
        some ("message.role".toList, "message.role must use ROLE_* values".toList)
      else
        (((Mapping.get? m "parts").bind Json.asList?).bind fun parts =>
          parts.findIdx? isOldPart).map fun index =>
            (partField index, partField index ++
              " must use direct Part fields such as text, raw, url, or data".toList)
  | _ => none

/-- The `TypeError` of looking a list or an object up in a set. -/
inductive Unhashable where
  | typeError

/-- `_jsonrpc_message_payload` -/
def jsonrpcMessagePayload (payload : Option Mapping) : Except Unhashable (Option Json) :=
  match payload with
  | none => .ok none
  | some m =>
      match m.get? "method" with
      | some (.arr _) | some (.obj _) => .error .typeError
      | some (.str method) =>
          if method = "SendMessage".toList ∨ method = "SendStreamingMessage".toList then
            .ok ((m.getMapping? "params").bind fun params => params.get? "message")
          else .ok none
      | _ => .ok none

/-- `_rest_message_payload` -/
def restMessagePayload (payload : Option Mapping) : Option Json :=
  payload.bind fun m => m.get? "message"

/-- `_extract_jsonrpc_request_id`; a `bool` is an `int`, too. -/
def extractJsonrpcRequestId (payload : Option Mapping) : Option Json :=
  (payload.bind fun m => m.get? "id").filter fun
    | .str _ | .int _ | .bool _ => true
    | _ => false

/-! ## §3  The version of the protocol -/

section Versions

variable (D : Numerals)

def a2aProtocolVersion : Text := "1.0".toList

/-- `\d+` -/
def isNumeral (t : Text) : Bool := t ≠ [] && t.all fun c => (D.digit c).isSome

/-- `normalize_protocol_version`; a version that is none is the text of its `ValueError`. -/
def normalizeProtocolVersion (value : Text) : Except String Text :=
  if value.strip = [] then .error "Protocol version must be a non-empty string."
  else
    match value.strip.splitOn '.' with
    | [major, minor] =>
        if isNumeral D major && isNumeral D minor then .ok (major ++ '.' :: minor)
        else .error "Protocol version must use Major.Minor or Major.Minor.Patch format."
    | [major, minor, patch] =>
        if isNumeral D major && isNumeral D minor && isNumeral D patch then
          .ok (major ++ '.' :: minor)
        else .error "Protocol version must use Major.Minor or Major.Minor.Patch format."
    | _ => .error "Protocol version must use Major.Minor or Major.Minor.Patch format."

/-- `raw_requested` -/
def requestedVersion (headerValue queryValue : Option Text) : Text :=
  match Text.strip (headerValue.getD []) with
  | [] =>
      match Text.strip (queryValue.getD []) with
      | [] => a2aProtocolVersion
      | c :: t => c :: t
  | c :: t => c :: t

/-- `negotiate_protocol_version`, with `requested_version` of its exception. -/
def negotiateProtocolVersion (headerValue queryValue : Option Text) : Except Text Text :=
  match normalizeProtocolVersion D (requestedVersion headerValue queryValue) with
  | .error _ => .error (requestedVersion headerValue queryValue)
  | .ok version => if version = a2aProtocolVersion then .ok version else .error version

end Versions

/-! ## §4  The trace -/

structure TraceContext where
  traceparent : Text
  traceId : Text
  tracestate : Option Text

/-- `[0-9a-f]{n}` -/
def isHex (n : ℕ) (t : Text) : Bool :=
  t.length = n && t.all fun c => c.isDigit || ('a' ≤ c && c ≤ 'f')

/-- `_normalize_header_value` -/
def normalizeHeaderValue (value : Option Text) : Option Text :=
  value.bind Stream.nonempty?

/-- The match of `_TRACEPARENT_RE` and what follows it: the trace's id. -/
def traceIdOf (lowered : Text) : Option Text :=
  match lowered.splitOn '-' with
  | [version, traceId, parentId, flags] =>
      if isHex 2 version && isHex 32 traceId && isHex 16 parentId && isHex 2 flags &&
          version ≠ "ff".toList && traceId ≠ List.replicate 32 '0' &&
          parentId ≠ List.replicate 16 '0' then
        some traceId
      else none
  | _ => none

/-- `parse_traceparent` -/
def parseTraceparent (value : Option Text) : Option (Text × Text) :=
  (normalizeHeaderValue value).bind fun normalized =>
    (traceIdOf (lowerHeader normalized)).map fun traceId => (lowerHeader normalized, traceId)

def hexOfNibble (n : ℕ) : Char := "0123456789abcdef".toList.getD n '0'

/-- `secrets.token_hex`, from its random bytes -/
def tokenHex (bytes : Bytes) : Text :=
  bytes.flatMap fun b => [hexOfNibble (b.toNat / 16), hexOfNibble (b.toNat % 16)]

/-- The random bytes of a trace: those of its id and those of the parent's. -/
structure TraceSeed where
  traceId : Bytes
  parentId : Bytes
  length_traceId : traceId.length = 16
  length_parentId : parentId.length = 8

/-- `generate_traceparent` -/
def generateTraceparent (seed : TraceSeed) : Text × Text :=
  ("00-".toList ++ tokenHex seed.traceId ++ "-".toList ++ tokenHex seed.parentId ++ "-01".toList,
    tokenHex seed.traceId)

/-- `resolve_trace_context` -/
def resolveTraceContext (seed : TraceSeed) (traceparentHeader tracestateHeader : Option Text) :
    TraceContext :=
  match parseTraceparent traceparentHeader with
  | none => ⟨(generateTraceparent seed).1, (generateTraceparent seed).2, none⟩
  | some (traceparent, traceId) => ⟨traceparent, traceId, normalizeHeaderValue tracestateHeader⟩

/-! ## §5  Versions that are accepted -/

section Versions

variable {D : Numerals} {headerValue queryValue : Option Text}

theorem strip_requestedVersion :
    (requestedVersion headerValue queryValue).strip = requestedVersion headerValue queryValue := by
  unfold requestedVersion
  split
  · split
    · decide
    · rename_i c t h
      rw [← h, Text.strip_strip]
  · rename_i c t h
    rw [← h, Text.strip_strip]

theorem isNumeral_iff {t : Text} :
    isNumeral D t = true ↔ t ≠ [] ∧ ∀ c ∈ t, (D.digit c).isSome = true := by
  simp [isNumeral]

theorem dot_notMem {t : Text} (h : isNumeral D t = true) : '.' ∉ t := by
  intro hmem
  have hdigit := (isNumeral_iff.mp h).2 '.' hmem
  rw [D.digit_ascii '.' (by decide)] at hdigit
  cases hdigit

theorem isNumeral_digit {c : Char} (hc : c.isDigit = true) (hascii : c.toNat < 128) :
    isNumeral D [c] = true := by
  refine isNumeral_iff.mpr ⟨by simp, fun c' hc' => ?_⟩
  obtain rfl := List.mem_singleton.mp hc'
  rw [D.digit_ascii _ hascii, if_pos hc]
  rfl

theorem normalizeProtocolVersion_eq_ok {value version : Text} :
    normalizeProtocolVersion D value = .ok version ↔
      ∃ major minor, isNumeral D major = true ∧ isNumeral D minor = true ∧
        version = major ++ '.' :: minor ∧
        (value.strip = version ∨
          ∃ patch, isNumeral D patch = true ∧ value.strip = version ++ '.' :: patch) := by
  constructor
  · intro h
    have hjoin : ['.'].intercalate (value.strip.splitOn '.') = value.strip :=
      List.intercalate_splitOn '.'
    unfold normalizeProtocolVersion at h
    split at h
    · cases h
    · split at h
      · rename_i major minor hsplit
        rw [hsplit] at hjoin
        split at h
        · rename_i hnumerals
          rw [Bool.and_eq_true] at hnumerals
          cases h
          exact ⟨major, minor, hnumerals.1, hnumerals.2, rfl, .inl (hjoin.symm.trans (by simp))⟩
        · cases h
      · rename_i major minor patch hsplit
        rw [hsplit] at hjoin
        split at h
        · rename_i hnumerals
          rw [Bool.and_eq_true, Bool.and_eq_true] at hnumerals
          cases h
          exact ⟨major, minor, hnumerals.1.1, hnumerals.1.2, rfl,
            .inr ⟨patch, hnumerals.2, hjoin.symm.trans (by simp)⟩⟩
        · cases h
      · cases h
  · rintro ⟨major, minor, hmajor, hminor, rfl, hvalue⟩
    have hdot : ∀ l ∈ [major, minor], '.' ∉ l := by
      simp [dot_notMem hmajor, dot_notMem hminor]
    unfold normalizeProtocolVersion
    rcases hvalue with hvalue | ⟨patch, hpatch, hvalue⟩
    · have hsplit : value.strip.splitOn '.' = [major, minor] := by
        rw [hvalue, ← List.splitOn_intercalate '.' hdot (by simp)]
        simp
      rw [if_neg (by rw [hvalue]; simp), hsplit]
      simp [hmajor, hminor]
    · have hdots : ∀ l ∈ [major, minor, patch], '.' ∉ l := by
        simp [dot_notMem hmajor, dot_notMem hminor, dot_notMem hpatch]
      have hsplit : value.strip.splitOn '.' = [major, minor, patch] := by
        rw [hvalue, ← List.splitOn_intercalate '.' hdots (by simp)]
        simp
      rw [if_neg (by rw [hvalue]; simp), hsplit]
      simp [hmajor, hminor, hpatch]

theorem eq_of_negotiateProtocolVersion {version : Text}
    (h : negotiateProtocolVersion D headerValue queryValue = .ok version) :
    version = a2aProtocolVersion := by
  unfold negotiateProtocolVersion at h
  split at h
  · cases h
  · split at h
    · rename_i hversion
      cases h
      exact hversion
    · cases h

/-- The version is 1.0, and a number for the patch may follow it. -/
theorem negotiateProtocolVersion_eq_ok {version : Text} :
    negotiateProtocolVersion D headerValue queryValue = .ok version ↔
      version = a2aProtocolVersion ∧
        (requestedVersion headerValue queryValue = a2aProtocolVersion ∨
          ∃ patch, isNumeral D patch = true ∧
            requestedVersion headerValue queryValue = a2aProtocolVersion ++ '.' :: patch) := by
  have hnormal : normalizeProtocolVersion D (requestedVersion headerValue queryValue) =
      .ok a2aProtocolVersion ↔
        (requestedVersion headerValue queryValue = a2aProtocolVersion ∨
          ∃ patch, isNumeral D patch = true ∧
            requestedVersion headerValue queryValue = a2aProtocolVersion ++ '.' :: patch) := by
    rw [normalizeProtocolVersion_eq_ok, strip_requestedVersion]
    constructor
    · rintro ⟨major, minor, -, -, -, hvalue⟩
      exact hvalue
    · exact fun hvalue => ⟨['1'], ['0'], isNumeral_digit (by decide) (by decide),
        isNumeral_digit (by decide) (by decide), rfl, hvalue⟩
  rw [← hnormal]
  unfold negotiateProtocolVersion
  split
  · rename_i e he
    rw [he]
    exact iff_of_false (by rintro ⟨⟩) (by rintro ⟨-, ⟨⟩⟩)
  · rename_i v hv
    rw [hv]
    split
    · rename_i hversion
      subst hversion
      exact ⟨fun h => ⟨(Except.ok.inj h).symm, rfl⟩, fun h => congrArg Except.ok h.1.symm⟩
    · rename_i hversion
      exact iff_of_false (by rintro ⟨⟩) fun h => hversion (Except.ok.inj h.2)

end Versions

/-! ## §6  Traces that are passed on -/

theorem lowerHeader_lowerHeader (t : Text) : lowerHeader (lowerHeader t) = lowerHeader t :=
  map_lowerLatin1_twice t

/-- What has been parsed is parsed to itself. -/
theorem parseTraceparent_parsed {value : Option Text} {traceparent traceId : Text}
    (h : parseTraceparent value = some (traceparent, traceId)) :
    parseTraceparent (some traceparent) = some (traceparent, traceId) := by
  obtain ⟨normalized, hnormalized, h⟩ := Option.bind_eq_some_iff.mp h
  obtain ⟨id, hid, h⟩ := Option.map_eq_some_iff.mp h
  cases h
  obtain ⟨text, -, htext⟩ := Option.bind_eq_some_iff.mp hnormalized
  obtain ⟨rfl, hblank⟩ := Stream.nonempty?_eq_some htext
  have hstrip : Text.strip (lowerHeader text.strip) = lowerHeader text.strip := by
    rw [lowerHeader, strip_map_lowerLatin1, Text.strip_strip]
  have hne : lowerHeader text.strip ≠ [] := by
    rw [lowerHeader, ne_eq, List.map_eq_nil_iff, ← Text.blank_iff]
    exact hblank
  have hnonempty : Stream.nonempty? (lowerHeader text.strip) = some (lowerHeader text.strip) := by
    unfold Stream.nonempty?
    rw [hstrip, if_neg hne]
  unfold parseTraceparent normalizeHeaderValue
  rw [Option.bind_some, hnonempty, Option.bind_some, lowerHeader_lowerHeader, hid]
  rfl

section Generated

variable {n : ℕ} {bytes : Bytes} {seed : TraceSeed}

/-- A lower case hexadecimal digit. -/
def isHexDigit (c : Char) : Bool := c.isDigit || ('a' ≤ c && c ≤ 'f')

theorem isHexDigit_hexOfNibble (h : n < 16) : isHexDigit (hexOfNibble n) = true := by
  interval_cases n <;> decide

theorem hexOfNibble_eq_zero (h : n < 16) : hexOfNibble n = '0' ↔ n = 0 := by
  interval_cases n <;> decide

theorem length_tokenHex : (tokenHex bytes).length = 2 * bytes.length := by
  unfold tokenHex
  induction bytes with
  | nil => rfl
  | cons b bytes ih =>
      rw [List.flatMap_cons, List.length_append, ih]
      simp
      omega

theorem isHexDigit_of_mem_tokenHex {c : Char} (h : c ∈ tokenHex bytes) : isHexDigit c = true := by
  obtain ⟨b, -, hc⟩ := List.mem_flatMap.mp h
  have hb := b.toNat_lt
  rcases List.mem_pair.mp hc with rfl | rfl
  · exact isHexDigit_hexOfNibble (by omega)
  · exact isHexDigit_hexOfNibble (Nat.mod_lt _ (by decide))

theorem isHex_tokenHex (h : bytes.length = n) : isHex (2 * n) (tokenHex bytes) = true := by
  unfold isHex
  rw [length_tokenHex, h, Bool.and_eq_true, List.all_eq_true]
  exact ⟨decide_eq_true rfl, fun c hc => isHexDigit_of_mem_tokenHex hc⟩

theorem tokenHex_eq_zeros (h : bytes.length = n) :
    tokenHex bytes = List.replicate (2 * n) '0' ↔ ∀ b ∈ bytes, b = 0 := by
  subst h
  rw [List.eq_replicate_iff, and_iff_right length_tokenHex]
  constructor
  · intro hzeros b hb
    have hlt := b.toNat_lt
    have hhigh := (hexOfNibble_eq_zero (n := b.toNat / 16) (by omega)).mp
      (hzeros _ (List.mem_flatMap.mpr ⟨b, hb, by simp⟩))
    have hlow := (hexOfNibble_eq_zero (n := b.toNat % 16) (Nat.mod_lt _ (by decide))).mp
      (hzeros _ (List.mem_flatMap.mpr ⟨b, hb, by simp⟩))
    exact UInt8.toNat_inj.mp (by rw [UInt8.toNat_zero]; omega)
  · intro hzeros c hc
    obtain ⟨b, hb, hc⟩ := List.mem_flatMap.mp hc
    obtain rfl := hzeros b hb
    rcases List.mem_pair.mp hc with rfl | rfl <;> rfl

/-- Neither part of the trace is zero. -/
def TraceSeed.Nonzero (seed : TraceSeed) : Prop :=
  (∃ b ∈ seed.traceId, b ≠ 0) ∧ ∃ b ∈ seed.parentId, b ≠ 0

theorem lowerLatin1_of_isHexDigit {c : Char} (h : isHexDigit c = true) : lowerLatin1 c = c := by
  unfold lowerLatin1
  rw [if_neg]
  rw [isHexDigit, Bool.or_eq_true, Bool.and_eq_true, decide_eq_true_iff, decide_eq_true_iff] at h
  rcases h with h | ⟨hlow, hhigh⟩
  · simp only [Char.isDigit, Bool.and_eq_true, decide_eq_true_iff] at h
    obtain ⟨hlow, hhigh⟩ := h
    have hlow' : 48 ≤ c.toNat := hlow
    have hhigh' : c.toNat ≤ 57 := hhigh
    omega
  · have hlow' : 97 ≤ c.toNat := hlow
    have hhigh' : c.toNat ≤ 102 := hhigh
    omega

theorem dash_notMem_tokenHex : '-' ∉ tokenHex bytes := fun h => by
  have hdash := isHexDigit_of_mem_tokenHex h
  revert hdash
  decide

theorem generateTraceparent_eq : (generateTraceparent seed).1 =
    ['-'].intercalate ["00".toList, tokenHex seed.traceId, tokenHex seed.parentId, "01".toList] := by
  simp [generateTraceparent]

theorem lowerHeader_generateTraceparent :
    lowerHeader (generateTraceparent seed).1 = (generateTraceparent seed).1 := by
  have htoken : ∀ bytes : Bytes, lowerHeader (tokenHex bytes) = tokenHex bytes := fun bytes =>
    (List.map_congr_left fun c hc =>
      lowerLatin1_of_isHexDigit (isHexDigit_of_mem_tokenHex hc)).trans (List.map_id _)
  unfold generateTraceparent
  unfold lowerHeader at htoken ⊢
  simp only [List.map_append, htoken]
  rfl

/-- A generated trace is one, unless one of its ids is zero. -/
theorem traceIdOf_generateTraceparent :
    traceIdOf (generateTraceparent seed).1 = some (generateTraceparent seed).2 ↔ seed.Nonzero := by
  have hdash : ∀ l ∈ ["00".toList, tokenHex seed.traceId, tokenHex seed.parentId, "01".toList],
      '-' ∉ l := by
    simp [dash_notMem_tokenHex]
  have htrace := tokenHex_eq_zeros seed.length_traceId
  have hparent := tokenHex_eq_zeros seed.length_parentId
  have hnonzero : ∀ bytes : Bytes, (¬ ∀ b ∈ bytes, b = 0) ↔ ∃ b ∈ bytes, b ≠ 0 := by
    simp
  unfold traceIdOf
  rw [generateTraceparent_eq, List.splitOn_intercalate '-' hdash (by simp)]
  dsimp only
  rw [isHex_tokenHex seed.length_traceId, isHex_tokenHex seed.length_parentId]
  have hversion : isHex 2 "00".toList = true := by decide
  have hflags : isHex 2 "01".toList = true := by decide
  have hff : "00".toList ≠ "ff".toList := by decide
  rw [hversion, hflags, decide_eq_true hff]
  simp only [Bool.true_and, Bool.and_eq_true, decide_eq_true_iff]
  rw [TraceSeed.Nonzero, ← hnonzero, ← hnonzero, ← htrace, ← hparent]
  constructor
  · intro h
    by_contra hzero
    rw [if_neg hzero] at h
    cases h
  · exact fun h => if_pos h

theorem nonempty?_generateTraceparent :
    Stream.nonempty? (generateTraceparent seed).1 = some (generateTraceparent seed).1 := by
  have hcore : Strip.Core Stream.isSpace "-01".toList := ⟨by decide, by decide⟩
  have hstrip : Text.strip (generateTraceparent seed).1 = (generateTraceparent seed).1 :=
    Strip.strip_append_core _ hcore
  unfold Stream.nonempty?
  rw [hstrip, if_neg]
  simp [generateTraceparent]

/-- The trace that a response and the requests upstream carry is one that the parser accepts, as it
is, unless it had to be made up and one of its ids has come out as zero. -/
theorem resolveTraceContext_parsed (tracestate : Option Text) (value : Option Text) :
    parseTraceparent (some (resolveTraceContext seed value tracestate).traceparent) =
        some ((resolveTraceContext seed value tracestate).traceparent,
          (resolveTraceContext seed value tracestate).traceId) ↔
      (parseTraceparent value).isSome = true ∨ seed.Nonzero := by
  unfold resolveTraceContext
  cases hvalue : parseTraceparent value with
  | some parsed =>
      obtain ⟨traceparent, traceId⟩ := parsed
      exact iff_of_true (parseTraceparent_parsed hvalue) (.inl rfl)
  | none =>
      rw [← traceIdOf_generateTraceparent]
      unfold parseTraceparent normalizeHeaderValue
      dsimp only
      rw [Option.bind_some, nonempty?_generateTraceparent, Option.bind_some,
        lowerHeader_generateTraceparent]
      cases traceIdOf (generateTraceparent seed).1 <;> simp [Prod.ext_iff]

end Generated

end OpencodeA2a.Server
