import OpencodeA2a.Stream.Json

/-!
# The outbound network policy

`client/network_policy.py`: which URLs the embedded client may contact, and which
of them may get its credentials. What the standard library knows about characters
and addresses is a parameter, and so is what a name resolves to, at every moment anew.
-/

namespace OpencodeA2a.Client

open OpencodeA2a.Stream (Text Json Mapping)

/-! ## §1  URLs -/

/-- What `ipaddress` says of an address. -/
structure Address where
  isPrivate : Bool
  isLoopback : Bool
  isLinkLocal : Bool
  isReserved : Bool
  isMulticast : Bool
  isUnspecified : Bool

structure Network where
  /-- `str.lower` -/
  lower : Text → Text
  /-- whether `urlsplit` lets brackets and non-ASCII characters of a netloc pass -/
  validNetloc : Text → Bool
  ipAddress : Text → Address

/-- The addresses in the answers of `getaddrinfo` at some moment, where it answers. -/
abbrev Resolver := Text → Option (List Text)

structure SplitResult where
  scheme : Text
  netloc : Text

def isSchemeChar (c : Char) : Bool := c.isAlphanum || c == '+' || c == '-' || c == '.'

/-- `urlsplit`, as far as the scheme and the netloc go; `none` is its `ValueError`. -/
def urlsplit (net : Network) (url : Text) : Option SplitResult :=
  let url := (url.dropWhile fun c => c.toNat ≤ 32).filter fun c =>
    c ≠ '\t' && c ≠ '\n' && c ≠ '\r'
  let before := url.takeWhile (· ≠ ':')
  let isScheme := url.contains ':' && (before.head?.any Char.isAlpha) && before.all isSchemeChar
  let scheme := if isScheme then before.map Char.toLower else []
  let rest := if isScheme then (url.dropWhile (· ≠ ':')).tail else url
  match rest with
  | '/' :: '/' :: rest =>
      let netloc := rest.takeWhile fun c => c ≠ '/' && c ≠ '?' && c ≠ '#'
      if netloc.contains '[' ≠ netloc.contains ']' || !net.validNetloc netloc then none
      else some ⟨scheme, netloc⟩
  | _ => some ⟨scheme, []⟩

namespace SplitResult

variable (parsed : SplitResult)

/-- The netloc behind its last `@`. -/
def hostinfo : Text := (parsed.netloc.reverse.takeWhile (· ≠ '@')).reverse

/-- The netloc before its last `@`. -/
def userinfo : Text := (parsed.netloc.reverse.dropWhile (· ≠ '@')).tail.reverse

/-- `hostname`, where `None` is the empty text; a zone is not lowered. -/
def hostname (net : Network) : Text :=
  let host :=
    if parsed.hostinfo.contains '[' then
      ((parsed.hostinfo.dropWhile (· ≠ '[')).tail).takeWhile (· ≠ ']')
    else parsed.hostinfo.takeWhile (· ≠ ':')
  net.lower (host.takeWhile (· ≠ '%')) ++ host.dropWhile (· ≠ '%')

/-- `username or password` -/
def hasUserinfo : Bool :=
  !(parsed.userinfo.takeWhile (· ≠ ':')).isEmpty ||
    !((parsed.userinfo.dropWhile (· ≠ ':')).tail).isEmpty

end SplitResult

/-! ## §2  The policy -/

structure NetworkPolicy where
  allowedHosts : List Text
  allowPrivateHosts : Bool

/-- `A2ANetworkPolicyError`, and the `ValueError` of `urlsplit` -/
inductive NetworkPolicyError where
  | agentUrlRequired
  | invalidUrl
  | schemeNotAllowed (scheme : Text)
  | hostMissing
  | userinfoIncluded
  | hostNotAllowed (host : Text)
  | hostUnresolved (host : Text)
  | hostPrivate (host address : Text)

structure NetworkPolicyDecision where
  host : Text
  allowedHost : Bool
  credentialsAllowed : Bool

variable (net : Network) (getaddrinfo : Resolver)

/-- `value.strip().lower().rstrip(".")` -/
def normalizeHost (value : Text) : Text := (net.lower value.strip).rdropWhile (· = '.')

/-- Whether a normalised host matches a normalised entry. -/
def matchesEntry (host entry : Text) : Bool :=
  match entry with
  | [] => false
  | '*' :: '.' :: apex => host ≠ apex && (('.' :: apex).isSuffixOf host)
  | _ => host = entry

/-- `matches_allowed_host` -/
def matchesAllowedHost (host : Text) (allowedHosts : List Text) : Bool :=
  !(normalizeHost net host).isEmpty &&
    allowedHosts.any fun entry => matchesEntry (normalizeHost net host) (normalizeHost net entry)

/-- `_is_private_address` -/
def isPrivateAddress (a : Address) : Bool :=
  a.isPrivate || a.isLoopback || a.isLinkLocal || a.isReserved || a.isMulticast || a.isUnspecified

/-- `resolve_host_addresses` -/
def resolveHostAddresses (host : Text) : Option (List Text) :=
  (getaddrinfo host).map fun infos =>
    infos.foldl (fun addresses ip => if ip ∈ addresses then addresses else addresses ++ [ip]) []

namespace NetworkPolicy

variable (policy : NetworkPolicy)

/-- The entries of the allowlist that are not blank. -/
def allowlist : List Text :=
  (policy.allowedHosts.filter fun item => decide ¬ item.Blank).map (normalizeHost net)

/-- The host that the policy sees in a URL. -/
def hostOf (url : Text) : Text :=
  match urlsplit net url.strip with
  | none => []
  | some parsed => net.lower (parsed.hostname net).strip

/-- Whether the host of a URL is on the allowlist. -/
def hostMatches (url : Text) : Bool :=
  matchesAllowedHost net (hostOf net url) (policy.allowlist net)

/-- The check of the addresses of a host. -/
def checkAddresses (host : Text) : Except NetworkPolicyError Unit :=
  if policy.allowPrivateHosts then .ok ()
  else match resolveHostAddresses getaddrinfo host with
    | none => .error (.hostUnresolved host)
    | some addresses =>
        match addresses.find? fun address => isPrivateAddress (net.ipAddress address) with
        | some address => .error (.hostPrivate host address)
        | none => .ok ()

/-- `validate_agent_url` -/
def validateAgentUrl (agentUrl : Text) : Except NetworkPolicyError NetworkPolicyDecision :=
  if agentUrl.strip = [] then .error .agentUrlRequired
  else match urlsplit net agentUrl.strip with
    | none => .error .invalidUrl
    | some parsed =>
        let host := net.lower (parsed.hostname net).strip
        let matched := matchesAllowedHost net host (policy.allowlist net)
        if parsed.scheme ∉ ["http".toList, "https".toList] then
          .error (.schemeNotAllowed parsed.scheme)
        else if host = [] then .error .hostMissing
        else if parsed.hasUserinfo then .error .userinfoIncluded
        else if !(policy.allowlist net).isEmpty && !matched then .error (.hostNotAllowed host)
        else (policy.checkAddresses net getaddrinfo host).map fun _ =>
          ⟨host, matched, !(policy.allowlist net).isEmpty && matched⟩

/-- A URL that is let through: its host is on the allowlist, if there is one, and the
credentials go there only in that case. -/
theorem validateAgentUrl_eq_ok {agentUrl : Text} {decision : NetworkPolicyDecision}
    (h : policy.validateAgentUrl net getaddrinfo agentUrl = .ok decision) :
    decision.host = hostOf net agentUrl ∧
      decision.allowedHost = policy.hostMatches net agentUrl ∧
      decision.credentialsAllowed = !(policy.allowlist net).isEmpty ∧
      ((policy.allowlist net).isEmpty = false → policy.hostMatches net agentUrl = true) := by
  unfold validateAgentUrl at h
  split at h
  · cases h
  · split at h
    · cases h
    · rename_i parsed hparsed
      have hhost : hostOf net agentUrl = net.lower (parsed.hostname net).strip := by
        unfold hostOf
        rw [hparsed]
      simp only at h
      split_ifs at h with hscheme hempty huser hlist
      rw [← hhost] at h hlist
      rw [Bool.and_eq_true, Bool.not_eq_true', Bool.not_eq_true'] at hlist
      have hmatch : (policy.allowlist net).isEmpty = false →
          policy.hostMatches net agentUrl = true := by
        intro hne
        by_contra hnot
        rw [Bool.not_eq_true] at hnot
        exact hlist ⟨hne, hnot⟩
      cases hcheck : policy.checkAddresses net getaddrinfo (hostOf net agentUrl) with
      | error e =>
          rw [hcheck] at h
          cases h
      | ok u =>
          rw [hcheck] at h
          cases h
          refine ⟨rfl, rfl, ?_, hmatch⟩
          cases hne : (policy.allowlist net).isEmpty with
          | true => rfl
          | false =>
              have hall := hmatch hne
              unfold hostMatches at hall
              simp only [hall]
              rfl

/-- A URL that was let through before is let through again exactly if the addresses are
that its host has now. -/
theorem validateAgentUrl_again_iff {agentUrl : Text} {decision : NetworkPolicyDecision}
    (h : policy.validateAgentUrl net getaddrinfo agentUrl = .ok decision) (now : Resolver) :
    (∃ decision, policy.validateAgentUrl net now agentUrl = .ok decision) ↔
      policy.checkAddresses net now (hostOf net agentUrl) = .ok () := by
  unfold validateAgentUrl at h ⊢
  split at h
  · cases h
  · rename_i hurl
    rw [if_neg hurl]
    split at h
    · cases h
    · rename_i parsed hparsed
      have hhost : hostOf net agentUrl = net.lower (parsed.hostname net).strip := by
        unfold hostOf
        rw [hparsed]
      simp only at h ⊢
      rw [← hhost] at h ⊢
      split_ifs at h with hscheme hempty huser hlist
      rw [if_neg (not_not_intro hscheme), if_neg hempty, if_neg huser, if_neg hlist]
      cases policy.checkAddresses net now (hostOf net agentUrl) with
      | error e =>
          constructor
          · rintro ⟨decision, hd⟩
            cases hd
          · intro hcheck
            cases hcheck
      | ok u => exact ⟨fun _ => rfl, fun _ => ⟨_, rfl⟩⟩

end NetworkPolicy

end OpencodeA2a.Client
