import GigaPdf.Lib.Words
import GigaPdf.Security.ApiKeys

/-!
# Identities

The way of a request from `ApiKeyAuthMiddleware` over `JWTAuthMiddleware` to the dependencies
`get_current_user` and `get_current_admin_user`. The decoding of tokens, the service of sessions and
the table of accounts are parameters, which may answer the middleware and the route differently.
-/

namespace GigaPdf.Identity

open ApiKeys
open Text (isSpace lower)
open Words (words)

inductive AuthMethod
  | session | apiKey
deriving DecidableEq, Repr

structure CurrentUser where
  userId : List Char
  email : Option String
  name : Option String
  roles : List String
  authMethod : AuthMethod
  apiKeyId : Option String
deriving DecidableEq

/-- The claims of a token; the flags tell whether a claim is `True`. -/
structure Claims where
  sub : Option (List Char)
  userId : Option (List Char)
  email : Option String
  name : Option String
  roles : List String
  isAdmin : Bool
  role : Option String

/-- What the service of sessions says of a user. -/
structure SessionUser where
  id : List Char
  email : Option String
  name : Option String
  isAdmin : Bool
  role : Option String

inductive AuthError
  | required | invalid | other
deriving DecidableEq

structure Settings where
  isDevelopment : Bool
  authJwtPublicKey : String
  authSessionUrl : String

/-- What is asked on the way; `other` stands for any other exception. -/
structure Authority where
  decodeUnverified : List Char → Option Claims
  decodeJwtToken : List Char → Option Claims
  validateSession : List Char → Except AuthError SessionUser
  loadAccount : List Char → Except AuthError (Option (Option String × Option String))

/-! ## Bearer tokens -/

def Claims.subject (claims : Claims) : List Char := (claims.sub.or claims.userId).getD []

/-- `CurrentUser.from_claims` -/
def CurrentUser.fromClaims (claims : Claims) : CurrentUser where
  userId := claims.subject
  email := claims.email
  name := claims.name
  roles := claims.roles
  authMethod := .session
  apiKeyId := none

def adminOr (isAdmin : Bool) : List String := if isAdmin then ["admin"] else ["user"]

def SessionUser.toCurrent (user : SessionUser) : CurrentUser where
  userId := user.id
  email := user.email
  name := user.name
  roles := adminOr (user.isAdmin || user.role = some "admin")
  authMethod := .session
  apiKeyId := none

def isJwtToken (token : List Char) : Bool :=
  let parts := token.splitOn '.'
  parts.length = 3 && parts.all (10 < ·.length)

def Settings.withoutJwt (settings : Settings) : Bool :=
  settings.isDevelopment && settings.authJwtPublicKey = "dev-mode-no-jwt-required"

def Settings.jwtConfigured (settings : Settings) : Bool :=
  settings.authJwtPublicKey ≠ "" && settings.authJwtPublicKey ≠ "CONFIGURE_YOUR_JWT_PUBLIC_KEY"

variable (settings : Settings)

/-- The user of a token that nobody verifies. -/
def developmentUser (au : Authority) (token : List Char) : CurrentUser :=
  match (if isJwtToken token then au.decodeUnverified token else none).filter
      (·.subject ≠ []) with
  | some claims =>
    { CurrentUser.fromClaims claims with
      roles := adminOr (claims.isAdmin || claims.role = some "admin" || "admin" ∈ claims.roles) }
  | none => ⟨token.take 255, none, none, ["user"], .session, none⟩

def sessionUser (au : Authority) (token : List Char) : Except AuthError CurrentUser :=
  if settings.authSessionUrl = "" then .error .invalid
  else match au.validateSession token with
    | .error .other => .error .other
    | .error _ => .error .invalid
    | .ok user => if user.id = [] then .error .invalid else .ok user.toCurrent

def authenticateToken (au : Authority) (token : List Char) : Except AuthError CurrentUser :=
  if settings.withoutJwt then .ok (developmentUser au token)
  else match
    if settings.jwtConfigured && isJwtToken token then au.decodeJwtToken token else none
  with
    | none => sessionUser settings au token
    | some claims =>
      -- A token outlives the account it was made for.
      match au.loadAccount claims.subject with
      | .error e => .error e
      | .ok none => .error .invalid
      | .ok (some _) => .ok (CurrentUser.fromClaims claims)

/-- The token of a header. -/
def bearerToken (authorization : List Char) : Option (List Char) :=
  match words isSpace authorization with
  | [scheme, token] => if lower scheme = ['b', 'e', 'a', 'r', 'e', 'r'] then some token else none
  | _ => none

def authenticateBearer (au : Authority) (authorization : List Char) :
    Except AuthError CurrentUser :=
  match bearerToken authorization with
  | none => .error .invalid
  | some token => authenticateToken settings au token

/-! ## From the request to the route -/

/-- `JWTAuthMiddleware`, which lets every request through. -/
def resolve (au : Authority) (r : Request) : Option CurrentUser :=
  if r.isExempt then none
  else (r.authorization.filter fun a => (bearerToken a).isSome).bind fun a =>
    (authenticateBearer settings au a).toOption

/-- Only the key of a user, not one for embedding, stands for a user. -/
def authenticateApiKey (au : Authority) (state : Option KeyState) :
    Except AuthError (Option CurrentUser) :=
  match state.filter fun s => s.apiKeyUserId ≠ [] && !s.apiKeyIsPublishable with
  | none => .ok none
  | some s =>
    match au.loadAccount s.apiKeyUserId with
    | .error e => .error e
    | .ok none => .error .invalid
    | .ok (some (email, name)) =>
      .ok (some ⟨s.apiKeyUserId, email, name, ["user"], .apiKey, some s.apiKeyId⟩)

def getCurrentUser (au : Authority) (r : Request) (resolved : Option CurrentUser)
    (state : Option KeyState) : Except AuthError CurrentUser :=
  match r.authorization.filter (· ≠ []) with
  | some a =>
    match resolved with
    | some user => .ok user
    | none => authenticateBearer settings au a
  | none =>
    match authenticateApiKey au state with
    | .error e => .error e
    | .ok (some user) => .ok user
    | .ok none => .error .required

/-- Why a request gets no answer of the route. -/
inductive Denied
  | byMiddleware (outcome : Outcome)
  | unauthorized (e : AuthError)
  | forbidden
deriving DecidableEq

variable {δ : Type} [DecidableEq δ] (sv : Services δ) (first second : Authority)

/-- The identity under which a route answers, where the middleware asks `first`, and the route
`second`. -/
def identify (r : Request) : Except Denied CurrentUser :=
  match (dispatch sv r).outcome with
  | .passed state =>
    match getCurrentUser settings second r (resolve settings first r) state with
    | .error e => .error (.unauthorized e)
    | .ok user => .ok user
  | outcome => .error (.byMiddleware outcome)

/-- `get_current_admin_user` -/
def identifyAdmin (r : Request) : Except Denied CurrentUser :=
  match identify settings sv first second r with
  | .error e => .error e
  | .ok user => if "admin" ∈ user.roles then .ok user else .error .forbidden

/-! ## Whom a route answers -/

theorem identify_eq_ok_iff {r : Request} {user : CurrentUser} :
    identify settings sv first second r = .ok user ↔
      ∃ state, (dispatch sv r).outcome = .passed state ∧
        getCurrentUser settings second r (resolve settings first r) state = .ok user := by
  rw [identify]
  cases (dispatch sv r).outcome with
  | passed state =>
    simp only [Outcome.passed.injEq, exists_eq_left']
    cases getCurrentUser settings second r (resolve settings first r) state <;> simp
  | refused | raised => simp

variable {settings} {au : Authority}

/-- Who stands behind the user of a token: nobody in a development without tokens, else the
signature of the token for an account that is there, or a session. -/
inductive Vouched (settings : Settings) (au : Authority) (token : List Char) : CurrentUser → Prop
  | unverified (development : settings.withoutJwt = true) :
    Vouched settings au token (developmentUser au token)
  | claims {claims : Claims} {account : Option String × Option String}
    (signed : au.decodeJwtToken token = some claims)
    (there : au.loadAccount claims.subject = .ok (some account)) :
    Vouched settings au token (.fromClaims claims)
  | session {user : SessionUser} (valid : au.validateSession token = .ok user)
    (named : user.id ≠ []) : Vouched settings au token user.toCurrent

theorem vouched_of_authenticateToken {token : List Char} {user : CurrentUser}
    (ok : authenticateToken settings au token = .ok user) : Vouched settings au token user := by
  rw [authenticateToken] at ok
  split at ok
  · rename_i development
    cases ok
    exact .unverified development
  · split at ok
    · rw [sessionUser] at ok
      split at ok
      · cases ok
      · split at ok
        · cases ok
        · cases ok
        · rename_i su valid
          split at ok
          · cases ok
          · rename_i named
            cases ok
            exact .session valid named
    · rename_i claims decoded
      split at ok
      · cases ok
      · cases ok
      · rename_i account there
        cases ok
        refine .claims ?_ there
        split at decoded
        · exact decoded
        · cases decoded

theorem Vouched.authMethod {token : List Char} {user : CurrentUser}
    (h : Vouched settings au token user) : user.authMethod = .session := by
  cases h with
  | unverified =>
    rw [developmentUser]
    split <;> rfl
  | claims | session => rfl

theorem vouched_of_authenticateBearer {authorization : List Char} {user : CurrentUser}
    (ok : authenticateBearer settings au authorization = .ok user) :
    ∃ token, bearerToken authorization = some token ∧ Vouched settings au token user := by
  rw [authenticateBearer] at ok
  split at ok
  · cases ok
  · rename_i token found
    exact ⟨token, found, vouched_of_authenticateToken ok⟩

theorem vouched_of_resolve {r : Request} {user : CurrentUser}
    (ok : resolve settings au r = some user) : ∃ a token, r.authorization = some a ∧
      bearerToken a = some token ∧ Vouched settings au token user := by
  rw [resolve] at ok
  split at ok
  · cases ok
  · obtain ⟨a, found, given⟩ := Option.bind_eq_some_iff.mp ok
    obtain ⟨here, -⟩ := Option.filter_eq_some_iff.mp found
    cases bearer : authenticateBearer settings au a with
    | error e =>
      rw [bearer] at given
      cases given
    | ok user' =>
      rw [bearer] at given
      cases given
      obtain ⟨token, header, vouched⟩ := vouched_of_authenticateBearer bearer
      exact ⟨a, token, here, header, vouched⟩

theorem authenticateApiKey_eq_some_iff {state : Option KeyState} {user : CurrentUser} :
    authenticateApiKey au state = .ok (some user) ↔ ∃ s account, state = some s ∧
      s.apiKeyUserId ≠ [] ∧ s.apiKeyIsPublishable = false ∧
      au.loadAccount s.apiKeyUserId = .ok (some account) ∧
      user = ⟨s.apiKeyUserId, account.1, account.2, ["user"], .apiKey, some s.apiKeyId⟩ := by
  rw [authenticateApiKey]
  constructor
  · intro ok
    split at ok
    · cases ok
    · rename_i s found
      obtain ⟨here, secret⟩ := Option.filter_eq_some_iff.mp found
      rw [Bool.and_eq_true, decide_eq_true_iff, Bool.not_eq_true'] at secret
      split at ok
      · cases ok
      · cases ok
      · rename_i email name there
        cases ok
        exact ⟨s, (email, name), here, secret.1, secret.2, there, rfl⟩
  · rintro ⟨s, ⟨email, name⟩, rfl, named, secret, there, rfl⟩
    have found : (some s).filter (fun s => s.apiKeyUserId ≠ [] && !s.apiKeyIsPublishable) =
        some s := by
      simp [named, secret]
    rw [found]
    simp only [there]

/-- A header is asked first, and a key where there is none. -/
theorem getCurrentUser_eq_ok_iff {r : Request} {resolved : Option CurrentUser}
    {state : Option KeyState} {user : CurrentUser} :
    getCurrentUser settings au r resolved state = .ok user ↔
      (∃ a, r.authorization.filter (· ≠ []) = some a ∧ (resolved = some user ∨
        resolved = none ∧ authenticateBearer settings au a = .ok user)) ∨
      r.authorization.filter (· ≠ []) = none ∧ authenticateApiKey au state = .ok (some user) := by
  rw [getCurrentUser]
  cases r.authorization.filter (· ≠ []) with
  | some a => cases resolved <;> simp
  | none =>
    cases found : authenticateApiKey au state with
    | error e => simp
    | ok user' => cases user' <;> simp

/-- The user of a header is vouched for, to the middleware or to the route. -/
theorem vouched_of_getCurrentUser {r : Request} {a : List Char} {user : CurrentUser}
    (header : r.authorization.filter (· ≠ []) = some a)
    (ok : resolve settings first r = some user ∨
      resolve settings first r = none ∧ authenticateBearer settings second a = .ok user) :
    ∃ token, bearerToken a = some token ∧
      (Vouched settings first token user ∨ Vouched settings second token user) := by
  obtain resolved | ⟨-, bearer⟩ := ok
  · obtain ⟨a', token, here, found, vouched⟩ := vouched_of_resolve resolved
    obtain ⟨there, -⟩ := Option.filter_eq_some_iff.mp header
    obtain rfl := Option.some.inj (here.symm.trans there)
    exact ⟨token, found, .inl vouched⟩
  · obtain ⟨token, found, vouched⟩ := vouched_of_authenticateBearer bearer
    exact ⟨token, found, .inr vouched⟩

/-- **What a key makes of a request**: a route answers under a key just when the request brings no
header of its own and presents a secret key that is live, unexpired, from an allowed origin, within
its limit and of sufficient scopes, and whose owner still has an account. The identity is that of
the owner, and never more than a plain user. -/
theorem identify_apiKey_iff {r : Request} {user : CurrentUser} :
    identify settings sv first second r = .ok user ∧ user.authMethod = .apiKey ↔
      r.authorization.filter (· ≠ []) = none ∧ ∃ rawKey key account, Presents sv r rawKey key ∧
        isPublishable rawKey = false ∧ Presentable sv r key false ∧
        (∀ info ∈ sv.isAllowed key, info.isAllowed = true) ∧
        (∃ required, requiredApiKeyScope r.method r.path = some required ∧
          required.rank ≤ authority (some key.scopes)) ∧
        key.userId ≠ [] ∧ second.loadAccount key.userId = .ok (some account) ∧
        user = ⟨key.userId, account.1, account.2, ["user"], .apiKey, some key.id⟩ := by
  rw [identify_eq_ok_iff]
  constructor
  · rintro ⟨⟨state, passed, ok⟩, byKey⟩
    obtain ⟨a, header, ok⟩ | ⟨bare, ok⟩ := getCurrentUser_eq_ok_iff.mp ok
    · obtain ⟨token, -, vouched⟩ := vouched_of_getCurrentUser first second header ok
      obtain session := vouched.elim Vouched.authMethod Vouched.authMethod
      rw [session] at byKey
      cases byKey
    · obtain ⟨s, account, rfl, named, secret, there, rfl⟩ := authenticateApiKey_eq_some_iff.mp ok
      obtain ⟨rawKey, key, presents, presentable, limit, scopes, rfl⟩ :=
        (dispatch_passed_iff sv).mp passed
      change isPublishable rawKey = false at secret
      rw [secret] at presentable
      exact ⟨bare, rawKey, key, account, presents, secret, presentable, limit, scopes secret, named,
        there, rfl⟩
  · rintro ⟨bare, rawKey, key, account, presents, secret, presentable, limit, scopes, named, there,
      rfl⟩
    have passed := (dispatch_passed_iff sv).mpr
      ⟨rawKey, key, presents, secret ▸ presentable, limit, fun _ => scopes, rfl⟩
    refine ⟨⟨_, passed, getCurrentUser_eq_ok_iff.mpr (.inr ⟨bare, ?_⟩)⟩, rfl⟩
    exact authenticateApiKey_eq_some_iff.mpr ⟨_, account, rfl, named, secret, there, rfl⟩

/-- **Who administers the platform**: an administrator is named by a header that is vouched for,
never by a key, and on the routes of the administration the request carries no key at all. -/
theorem identifyAdmin_vouched {r : Request} {user : CurrentUser}
    (ok : identifyAdmin settings sv first second r = .ok user) :
    user.authMethod = .session ∧ "admin" ∈ user.roles ∧
      (∃ a token, r.authorization = some a ∧ bearerToken a = some token ∧
        (Vouched settings first token user ∨ Vouched settings second token user)) ∧
      (r.method ≠ "OPTIONS".toList → r.isForbidden = true → r.apiKey.any (· ≠ []) = false) := by
  rw [identifyAdmin] at ok
  split at ok
  · cases ok
  · rename_i user' identified
    split at ok
    · rename_i admin
      cases ok
      obtain ⟨state, passed, got⟩ := (identify_eq_ok_iff ..).mp identified
      have keyless : r.method ≠ "OPTIONS".toList → r.isForbidden = true →
          r.apiKey.any (· ≠ []) = false := by
        intro method forbidden
        by_contra carried
        exact dispatch_isForbidden sv (by simpa using carried) method forbidden state passed
      obtain ⟨a, header, got⟩ | ⟨-, byKey⟩ := getCurrentUser_eq_ok_iff.mp got
      · obtain ⟨token, found, vouched⟩ := vouched_of_getCurrentUser first second header got
        obtain ⟨here, -⟩ := Option.filter_eq_some_iff.mp header
        exact ⟨vouched.elim Vouched.authMethod Vouched.authMethod, admin,
          ⟨a, token, here, found, vouched⟩, keyless⟩
      · obtain ⟨s, account, -, -, -, -, rfl⟩ := authenticateApiKey_eq_some_iff.mp byKey
        simp at admin
    · cases ok

/-- A session of an administrator, and no key. -/
theorem identifyAdmin_vouched_session :
    let settings : Settings := ⟨false, "", "https://giga-pdf.com/api/auth/get-session"⟩
    let sv : Services (List Char) := ⟨id, fun _ => none, some [], fun _ => none, 0⟩
    let au : Authority :=
      ⟨fun _ => none, fun _ => none, fun token => .ok ⟨token, none, none, true, none⟩,
        fun _ => .ok none⟩
    let r : Request := ⟨"GET".toList, "/api/v1/admin/users".toList, none, none, none,
      some "Bearer root".toList⟩
    let user : CurrentUser := ⟨"root".toList, none, none, ["admin"], .session, none⟩
    identifyAdmin settings sv au au r = .ok user ∧
    user.authMethod = .session ∧ "admin" ∈ user.roles ∧
      (∃ a token, r.authorization = some a ∧ bearerToken a = some token ∧
        (Vouched settings au token user ∨ Vouched settings au token user)) ∧
      (r.method ≠ "OPTIONS".toList → r.isForbidden = true → r.apiKey.any (· ≠ []) = false) := by
  intro settings sv au r user
  have ok : identifyAdmin settings sv au au r = .ok user := by decide +kernel
  exact ⟨ok, identifyAdmin_vouched sv au au ok⟩

end GigaPdf.Identity
