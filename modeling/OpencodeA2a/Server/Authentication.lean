import OpencodeA2a.Stream.Json
import Mathlib.Tactic.SplitIfs

/-!
# Static credentials

`auth.py`, and what `add_auth_middleware` makes of an `Authorization` header. A comparison
and a decoding may raise; what is raised leaves the middleware.
-/

namespace OpencodeA2a.Server

open OpencodeA2a.Stream (Text)

/-! ## §1  Credentials -/

structure AuthenticatedPrincipal where
  identity : Text
  authScheme : Text
  capabilities : List Text
  credentialId : Option Text

structure StaticAuthCredential where
  authScheme : Text
  principal : Text
  capabilities : List Text
  token : Option Text := none
  username : Option Text := none
  password : Option Text := none
  credentialId : Option Text := none

inductive AuthError where
  /-- `TypeError`, of `secrets.compare_digest` -/
  | type
  /-- a `ValueError` other than `binascii.Error`, of `base64.b64decode` -/
  | value
deriving DecidableEq

/-- `str.isascii()` -/
def isAscii (t : Text) : Bool := t.all fun c => c.toNat < 128

/-- `secrets.compare_digest` of two strings -/
def compareDigest (a b : Text) : Except AuthError Bool :=
  if isAscii a && isAscii b then .ok (a == b) else .error .type

/-! ## §2  Basic credentials -/

/-- The value of a character of the base64 alphabet. -/
def sextet (c : Char) : Option ℕ :=
  if c.isUpper then some (c.toNat - 'A'.toNat)
  else if c.isLower then some (c.toNat - 'a'.toNat + 26)
  else if c.isDigit then some (c.toNat - '0'.toNat + 52)
  else if c = '+' then some 62
  else if c = '/' then some 63
  else none

/-- `base64.b64decode(value, validate=True)`; none stands for `binascii.Error`. Behind a whole
quad any number of pads may follow. -/
def decodeQuads : Text → Option (List UInt8)
  | [] => some []
  | [a, b, '=', '='] => do
      let x ← sextet a
      let y ← sextet b
      some [.ofNat (x * 4 + y / 16)]
  | [a, b, c, '='] => do
      let x ← sextet a
      let y ← sextet b
      let z ← sextet c
      some [.ofNat (x * 4 + y / 16), .ofNat (y % 16 * 16 + z / 4)]
  | a :: b :: c :: d :: rest => do
      let x ← sextet a
      let y ← sextet b
      let z ← sextet c
      let w ← sextet d
      let bytes ← if rest.all (· = '=') then some [] else decodeQuads rest
      some (.ofNat (x * 4 + y / 16) :: .ofNat (y % 16 * 16 + z / 4) :: .ofNat (z % 4 * 64 + w) ::
        bytes)
  | _ => none

/-- `username:password`, of which neither is empty. -/
def splitUserPassword (decoded : Text) : Option (Text × Text) :=
  if ':' ∈ decoded then
    let username := decoded.takeWhile (· ≠ ':')
    let password := (decoded.dropWhile (· ≠ ':')).tail
    if username = [] ∨ password = [] then none else some (username, password)
  else none

/-- The username and the password in an ASCII value. -/
def decodeBasicValue (value : Text) : Option (Text × Text) := do
  let bytes ← decodeQuads value
  let decoded ← bytes.toByteArray.utf8Decode?
  splitUserPassword decoded.toList

/-- `decode_basic_credentials`; a value outside ASCII is no `binascii.Error`. -/
def decodeBasicCredentials (value : Text) : Except AuthError (Option (Text × Text)) :=
  if isAscii value then .ok (decodeBasicValue value) else .error .value

/-! ## §3  Authentication -/

/-- The test of a bearer credential; one of another scheme or without a token is passed over. -/
def testBearer (value : Text) (c : StaticAuthCredential) : Except AuthError Bool :=
  if c.authScheme ≠ "bearer".toList then .ok false
  else match c.token with
    | none => .ok false
    | some token => compareDigest value token

/-- The test of a basic credential: both parts are compared before either counts. -/
def testBasic (username password : Text) (c : StaticAuthCredential) : Except AuthError Bool :=
  if c.authScheme ≠ "basic".toList then .ok false
  else match c.username, c.password with
    | some username', some password' => do
        let usernameMatches ← compareDigest username username'
        let passwordMatches ← compareDigest password password'
        .ok (usernameMatches && passwordMatches)
    | _, _ => .ok false

/-- The loop over the credentials. -/
def firstPassing (test : StaticAuthCredential → Except AuthError Bool) :
    List StaticAuthCredential → Except AuthError (Option StaticAuthCredential)
  | [] => .ok none
  | c :: credentials =>
      match test c with
      | .error e => .error e
      | .ok true => .ok (some c)
      | .ok false => firstPassing test credentials

def principalOf (scheme : Text) (c : StaticAuthCredential) : AuthenticatedPrincipal where
  identity := c.principal
  authScheme := scheme
  capabilities := c.capabilities
  credentialId := c.credentialId

/-- `authenticate_static_credential`; `lower` is `str.lower`. -/
def authenticateStaticCredential (lower : Text → Text) (credentials : List StaticAuthCredential)
    (authScheme authValue : Text) : Except AuthError (Option AuthenticatedPrincipal) :=
  if lower authScheme = "bearer".toList then
    (firstPassing (testBearer authValue) credentials).map
      (Option.map (principalOf "bearer".toList))
  else if lower authScheme = "basic".toList then
    match decodeBasicCredentials authValue with
    | .error e => .error e
    | .ok none => .ok none
    | .ok (some (username, password)) =>
        (firstPassing (testBasic username password) credentials).map
          (Option.map (principalOf "basic".toList))
  else .ok none

/-- What `bearer_auth` finds in the header: none is answered with 401. -/
def authenticateHeader (lower : Text → Text) (credentials : List StaticAuthCredential)
    (header : Text) : Except AuthError (Option AuthenticatedPrincipal) :=
  if ' ' ∈ header then
    authenticateStaticCredential lower credentials (header.takeWhile (· ≠ ' '))
      (Stream.Text.strip (header.dropWhile (· ≠ ' ')).tail)
  else .ok none

/-! ## §4  What it should find -/

/-- The credential is of the scheme, and has what the value says. -/
def MatchesBearer (value : Text) (c : StaticAuthCredential) : Prop :=
  c.authScheme = "bearer".toList ∧ c.token = some value

def MatchesBasic (username password : Text) (c : StaticAuthCredential) : Prop :=
  c.authScheme = "basic".toList ∧ c.username = some username ∧ c.password = some password

instance (value : Text) : DecidablePred (MatchesBearer value) := fun _ =>
  inferInstanceAs (Decidable (_ ∧ _))

instance (username password : Text) : DecidablePred (MatchesBasic username password) := fun _ =>
  inferInstanceAs (Decidable (_ ∧ _))

/-- The principal of the first credential of the scheme that the value matches. -/
def expectedPrincipal (lower : Text → Text) (credentials : List StaticAuthCredential)
    (authScheme authValue : Text) : Option AuthenticatedPrincipal :=
  if lower authScheme = "bearer".toList then
    (credentials.find? (MatchesBearer authValue ·)).map (principalOf "bearer".toList)
  else if lower authScheme = "basic".toList then
    match decodeBasicValue authValue with
    | none => none
    | some (username, password) =>
        (credentials.find? (MatchesBasic username password ·)).map (principalOf "basic".toList)
  else none

/-- The credentials up to the first one that matches. -/
def UpTo (p : StaticAuthCredential → Prop) (credentials : List StaticAuthCredential)
    (c : StaticAuthCredential) : Prop :=
  ∃ front rest, credentials = front ++ c :: rest ∧ ∀ c' ∈ front, ¬ p c'

theorem firstPassing_eq_ok_iff {test : StaticAuthCredential → Except AuthError Bool}
    {p : StaticAuthCredential → Prop} [DecidablePred p]
    (htest : ∀ c b, test c = .ok b → b = decide (p c)) (credentials : List StaticAuthCredential) :
    firstPassing test credentials = .ok (credentials.find? (p ·)) ↔
      ∀ c, UpTo p credentials c → ∃ b, test c = .ok b := by
  induction credentials with
  | nil =>
      refine iff_of_true rfl ?_
      rintro c ⟨front, rest, hsplit, -⟩
      cases front <;> cases hsplit
  | cons c credentials ih =>
      have hfirst : UpTo p (c :: credentials) c := ⟨[], credentials, rfl, by simp⟩
      unfold firstPassing
      cases hc : test c with
      | error e =>
          refine iff_of_false (by simp) ?_
          intro hall
          obtain ⟨b, hb⟩ := hall c hfirst
          rw [hc] at hb
          cases hb
      | ok b =>
          obtain rfl := htest c b hc
          by_cases hp : p c
          · simp only [hp, decide_true, List.find?_cons_of_pos, true_iff]
            rintro c' ⟨front, rest, hsplit, hfront⟩
            cases front with
            | nil =>
                cases hsplit
                exact ⟨_, hc⟩
            | cons c'' front =>
                cases hsplit
                exact absurd hp (hfront c List.mem_cons_self)
          · simp only [hp, decide_false, Bool.false_eq_true, not_false_eq_true,
              List.find?_cons_of_neg]
            rw [ih]
            constructor
            · rintro hall c' ⟨front, rest, hsplit, hfront⟩
              cases front with
              | nil =>
                  cases hsplit
                  exact ⟨_, hc⟩
              | cons c'' front =>
                  cases hsplit
                  exact hall c' ⟨front, rest, rfl, fun x hx => hfront x (List.mem_cons_of_mem _ hx)⟩
            · rintro hall c' ⟨front, rest, rfl, hfront⟩
              apply hall c'
              refine ⟨c :: front, rest, rfl, ?_⟩
              intro x hx
              rcases List.mem_cons.mp hx with rfl | hx
              · exact hp
              · exact hfront x hx

theorem compareDigest_eq_ok {a b : Text} {r : Bool} :
    compareDigest a b = .ok r ↔ (isAscii a ∧ isAscii b) ∧ r = decide (a = b) := by
  unfold compareDigest
  split
  · rename_i hascii
    rw [Bool.and_eq_true] at hascii
    rw [Except.ok.injEq, Bool.beq_eq_decide_eq]
    exact ⟨fun h => ⟨hascii, h.symm⟩, fun h => h.2.symm⟩
  · rename_i hascii
    rw [Bool.and_eq_true] at hascii
    exact iff_of_false (by simp) (fun h => hascii h.1)

/-- A credential that is passed over. -/
theorem ok_false_iff {p : Prop} [Decidable p] {q : Prop} {b : Bool} (hp : ¬ p) (hq : q) :
    (Except.ok false : Except AuthError Bool) = .ok b ↔ q ∧ b = decide p := by
  rw [decide_eq_false hp, Except.ok.injEq]
  exact ⟨fun h => ⟨hq, h.symm⟩, fun h => h.2.symm⟩

theorem testBearer_eq_ok {value : Text} {c : StaticAuthCredential} {b : Bool} :
    testBearer value c = .ok b ↔
      (c.authScheme = "bearer".toList → ∀ token, c.token = some token →
        isAscii value ∧ isAscii token) ∧ b = decide (MatchesBearer value c) := by
  unfold testBearer
  by_cases hscheme : c.authScheme = "bearer".toList
  · rw [if_neg (not_not.mpr hscheme)]
    cases htoken : c.token with
    | none =>
        apply ok_false_iff
        · rintro ⟨-, hsome⟩
          rw [htoken] at hsome
          cases hsome
        · rintro - token hsome
          cases hsome
    | some token =>
        have hmatch : decide (MatchesBearer value c) = decide (value = token) := by
          rw [decide_eq_decide]
          unfold MatchesBearer
          rw [htoken, Option.some.injEq]
          exact ⟨fun h => h.2.symm, fun h => ⟨hscheme, h.symm⟩⟩
        simp only [compareDigest_eq_ok, hmatch]
        constructor
        · rintro ⟨hascii, hb⟩
          refine ⟨?_, hb⟩
          rintro - token' hsome
          obtain rfl := Option.some.inj hsome
          exact hascii
        · rintro ⟨hascii, hb⟩
          exact ⟨hascii hscheme token rfl, hb⟩
  · rw [if_pos hscheme]
    exact ok_false_iff (fun h => hscheme h.1) (fun h => absurd h hscheme)

theorem testBasic_eq_ok {username password : Text} {c : StaticAuthCredential} {b : Bool} :
    testBasic username password c = .ok b ↔
      (c.authScheme = "basic".toList → ∀ username' password', c.username = some username' →
        c.password = some password' →
        (isAscii username ∧ isAscii username') ∧ isAscii password ∧ isAscii password') ∧
      b = decide (MatchesBasic username password c) := by
  unfold testBasic
  by_cases hscheme : c.authScheme = "basic".toList
  · rw [if_neg (not_not.mpr hscheme)]
    cases husername : c.username with
    | none =>
        apply ok_false_iff
        · rintro ⟨-, hsome, -⟩
          rw [husername] at hsome
          cases hsome
        · rintro - username' password' hsome
          cases hsome
    | some username' =>
        cases hpassword : c.password with
        | none =>
            apply ok_false_iff
            · rintro ⟨-, -, hsome⟩
              rw [hpassword] at hsome
              cases hsome
            · rintro - username'' password' - hsome
              cases hsome
        | some password' =>
            have hmatch : decide (MatchesBasic username password c) =
                (decide (username = username') && decide (password = password')) := by
              rw [← Bool.decide_and, decide_eq_decide]
              unfold MatchesBasic
              rw [husername, hpassword, Option.some.injEq, Option.some.injEq]
              exact ⟨fun h => ⟨h.2.1.symm, h.2.2.symm⟩, fun h => ⟨hscheme, h.1.symm, h.2.symm⟩⟩
            rw [hmatch]
            simp only
            constructor
            · intro h
              cases hu : compareDigest username username' with
              | error e =>
                  rw [hu] at h
                  cases h
              | ok x =>
                  cases hp : compareDigest password password' with
                  | error e =>
                      rw [hu, hp] at h
                      cases h
                  | ok y =>
                      rw [hu, hp] at h
                      obtain ⟨hasciiu, rfl⟩ := compareDigest_eq_ok.mp hu
                      obtain ⟨hasciip, rfl⟩ := compareDigest_eq_ok.mp hp
                      refine ⟨?_, (Except.ok.inj h).symm⟩
                      rintro - username'' password'' hsome hsome'
                      obtain rfl := Option.some.inj hsome
                      obtain rfl := Option.some.inj hsome'
                      exact ⟨hasciiu, hasciip⟩
            · rintro ⟨hascii, rfl⟩
              obtain ⟨hasciiu, hasciip⟩ := hascii hscheme username' password' rfl rfl
              rw [compareDigest_eq_ok.mpr ⟨hasciiu, rfl⟩, compareDigest_eq_ok.mpr ⟨hasciip, rfl⟩]
              rfl
  · rw [if_pos hscheme]
    exact ok_false_iff (fun h => hscheme h.1) (fun h => absurd h hscheme)

/-! ## §5  When nothing is raised -/

/-- All that is decoded or compared is ASCII: a bearer value and the tokens up to the first that
it is; a basic value, and the username and the password in it with those of the credentials up
to the first that has them. -/
structure Comparable (lower : Text → Text) (credentials : List StaticAuthCredential)
    (authScheme authValue : Text) : Prop where
  bearer : lower authScheme = "bearer".toList → ∀ c, UpTo (MatchesBearer authValue) credentials c →
    c.authScheme = "bearer".toList → ∀ token, c.token = some token →
    isAscii authValue ∧ isAscii token
  basic : lower authScheme = "basic".toList → isAscii authValue ∧
    ∀ username password, decodeBasicValue authValue = some (username, password) →
    ∀ c, UpTo (MatchesBasic username password) credentials c → c.authScheme = "basic".toList →
    ∀ username' password', c.username = some username' → c.password = some password' →
    (isAscii username ∧ isAscii username') ∧ isAscii password ∧ isAscii password'

theorem firstPassing_eq_ok {test : StaticAuthCredential → Except AuthError Bool}
    {p : StaticAuthCredential → Prop} [DecidablePred p]
    (htest : ∀ c b, test c = .ok b → b = decide (p c)) {credentials : List StaticAuthCredential}
    {found : Option StaticAuthCredential} (h : firstPassing test credentials = .ok found) :
    found = credentials.find? (p ·) := by
  induction credentials with
  | nil => exact (Except.ok.inj h).symm
  | cons c credentials ih =>
      unfold firstPassing at h
      split at h
      · cases h
      · rename_i hc
        rw [List.find?_cons, ← htest c true hc]
        exact (Except.ok.inj h).symm
      · rename_i hc
        rw [List.find?_cons, ← htest c false hc]
        exact ih h

theorem map_firstPassing_iff {f : Option StaticAuthCredential → Option AuthenticatedPrincipal}
    {test : StaticAuthCredential → Except AuthError Bool} {p : StaticAuthCredential → Prop}
    [DecidablePred p] {safe : StaticAuthCredential → Prop}
    (htest : ∀ c b, test c = .ok b ↔ safe c ∧ b = decide (p c))
    (credentials : List StaticAuthCredential) :
    (firstPassing test credentials).map f = .ok (f (credentials.find? (p ·))) ↔
      ∀ c, UpTo p credentials c → safe c := by
  have hvalue : ∀ c b, test c = .ok b → b = decide (p c) := fun c b h => ((htest c b).mp h).2
  have hsafe : (∀ c, UpTo p credentials c → ∃ b, test c = .ok b) ↔
      ∀ c, UpTo p credentials c → safe c := by
    refine forall₂_congr fun c _ => ?_
    constructor
    · rintro ⟨b, hb⟩
      exact ((htest c b).mp hb).1
    · intro h
      exact ⟨_, (htest c _).mpr ⟨h, rfl⟩⟩
  rw [← hsafe, ← firstPassing_eq_ok_iff hvalue]
  cases hfound : firstPassing test credentials with
  | error e => exact iff_of_false (by simp [Except.map]) (by simp)
  | ok found =>
      obtain rfl := firstPassing_eq_ok hvalue hfound
      exact iff_of_true rfl rfl

/-- Authentication returns the principal of the first credential of the scheme that the value
matches, or none, exactly if all that it decodes or compares is ASCII. -/
theorem authenticate_exact_iff (lower : Text → Text) (credentials : List StaticAuthCredential)
    (authScheme authValue : Text) :
    authenticateStaticCredential lower credentials authScheme authValue =
        .ok (expectedPrincipal lower credentials authScheme authValue) ↔
      Comparable lower credentials authScheme authValue := by
  have hschemes : ("bearer".toList : Text) ≠ "basic".toList := by decide
  unfold authenticateStaticCredential expectedPrincipal
  by_cases hbearer : lower authScheme = "bearer".toList
  · rw [if_pos hbearer, if_pos hbearer, map_firstPassing_iff (fun c b => testBearer_eq_ok)]
    constructor
    · intro h
      exact ⟨fun _ => h, fun hbasic => absurd (hbearer.symm.trans hbasic) hschemes⟩
    · intro h
      exact h.bearer hbearer
  · rw [if_neg hbearer, if_neg hbearer]
    by_cases hbasic : lower authScheme = "basic".toList
    · rw [if_pos hbasic, if_pos hbasic]
      unfold decodeBasicCredentials
      by_cases hascii : isAscii authValue
      · rw [if_pos hascii]
        cases hdecoded : decodeBasicValue authValue with
        | none =>
            refine iff_of_true rfl ⟨fun h => absurd h hbearer, fun _ => ⟨hascii, ?_⟩⟩
            intro username password hsome
            rw [hdecoded] at hsome
            cases hsome
        | some pair =>
            obtain ⟨username, password⟩ := pair
            simp only
            rw [map_firstPassing_iff (fun c b => testBasic_eq_ok)]
            constructor
            · intro h
              refine ⟨fun hbearer' => absurd hbearer' hbearer, fun _ => ⟨hascii, ?_⟩⟩
              intro username' password' hsome
              rw [hdecoded] at hsome
              cases hsome
              exact h
            · intro h
              exact (h.basic hbasic).2 username password hdecoded
      · rw [if_neg hascii]
        exact iff_of_false (by simp) (fun h => hascii (h.basic hbasic).1)
    · rw [if_neg hbasic, if_neg hbasic]
      exact iff_of_true rfl ⟨fun h => absurd h hbearer, fun h => absurd h hbasic⟩

/-- What the header's scheme and value should be answered with; none is a 401. -/
def expectedForHeader (lower : Text → Text) (credentials : List StaticAuthCredential)
    (header : Text) : Option AuthenticatedPrincipal :=
  if ' ' ∈ header then
    expectedPrincipal lower credentials (header.takeWhile (· ≠ ' '))
      (Stream.Text.strip (header.dropWhile (· ≠ ' ')).tail)
  else none

/-- The middleware's answer; a header without a blank is refused before anything is compared. -/
theorem authenticateHeader_exact_iff (lower : Text → Text)
    (credentials : List StaticAuthCredential) (header : Text) :
    authenticateHeader lower credentials header =
        .ok (expectedForHeader lower credentials header) ↔
      (' ' ∈ header → Comparable lower credentials (header.takeWhile (· ≠ ' '))
        (Stream.Text.strip (header.dropWhile (· ≠ ' ')).tail)) := by
  unfold authenticateHeader expectedForHeader
  by_cases hblank : ' ' ∈ header
  · rw [if_pos hblank, if_pos hblank, authenticate_exact_iff]
    exact ⟨fun h _ => h, fun h => h hblank⟩
  · rw [if_neg hblank, if_neg hblank]
    exact iff_of_true rfl (fun h => absurd h hblank)

def botCredential : StaticAuthCredential where
  authScheme := "bearer".toList
  principal := "bot".toList
  capabilities := []
  token := some "token".toList

def opsCredential : StaticAuthCredential where
  authScheme := "basic".toList
  principal := "ops".toList
  capabilities := []
  username := some "ops".toList
  password := some "pass".toList

/-- Without the condition the claim is false: a value outside ASCII is not refused, but raises,
under either scheme. -/
theorem non_ascii_value_raises :
    (authenticateStaticCredential id [botCredential] "bearer".toList "tokén".toList =
        .error .type ∧
      expectedPrincipal id [botCredential] "bearer".toList "tokén".toList = none) ∧
    authenticateStaticCredential id [opsCredential] "basic".toList "é".toList = .error .value ∧
      expectedPrincipal id [opsCredential] "basic".toList "é".toList = none :=
  ⟨⟨rfl, rfl⟩, rfl, rfl⟩

example : decodeQuads "b3BzOnBhc3M=".toList = some ("ops:pass".toList.map (.ofNat ·.toNat)) := by
  decide

example : decodeBasicValue "dTpwYXNz=".toList = some ("u".toList, "pass".toList) := by rfl

end OpencodeA2a.Server
