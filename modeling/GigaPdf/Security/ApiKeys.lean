import GigaPdf.Lib.Text
import Mathlib.Order.Lattice

/-!
# API keys

`api_key_scopes.py` says which scope a request needs, and `ApiKeyAuthMiddleware` which requests that
carry a key are let through. The hash of a key, the parser of the referring address, the table of
keys and the rate limiter are parameters.
-/

namespace GigaPdf.ApiKeys

open Text (strip)

/-! ## Scopes -/

inductive Scope
  | read | write | admin
deriving DecidableEq, Repr

/-- The keys of `SCOPE_GRANTS`. -/
def Scope.ofName (name : List Char) : Option Scope :=
  if name = ['r', 'e', 'a', 'd'] then some .read
  else if name = ['w', 'r', 'i', 't', 'e'] then some .write
  else if name = ['a', 'd', 'm', 'i', 'n'] then some .admin
  else none

def Scope.text : Scope → String
  | .read => "read"
  | .write => "write"
  | .admin => "admin"

/-- `SCOPE_GRANTS` -/
def Scope.grants : Scope → List Scope
  | .read => [.read]
  | .write => [.read, .write]
  | .admin => [.read, .write, .admin]

def safeMethods : List String := ["GET", "HEAD", "OPTIONS"]

def adminScopePrefixes : List String := ["/api/v1/api-keys", "/api/v1/billing"]

def apiKeyForbiddenPrefixes : List String := ["/api/v1/admin", "/api/v1/account"]

/-- `_matches_prefix` -/
def matchesPrefix (path : List Char) (front : String) : Bool :=
  path = front.toList || (front.toList ++ ['/']).isPrefixOf path

/-- A set, as a list of its members. -/
def parseScopes (rawScopes : Option (List Char)) : List (List Char) :=
  match rawScopes with
  | none => []
  | some raw => ((raw.splitOn ',').map strip).filter (· ≠ [])

def grantedScopes (rawScopes : Option (List Char)) : List Scope :=
  (parseScopes rawScopes).flatMap fun name => (Scope.ofName name).elim [] Scope.grants

/-- `upper` on ASCII letters, of which a method is made. -/
def upper (method : List Char) : String := String.ofList (method.map Char.toUpper)

def requiredApiKeyScope (method path : List Char) : Option Scope :=
  if apiKeyForbiddenPrefixes.any (matchesPrefix path) then none
  else if adminScopePrefixes.any (matchesPrefix path) then some .admin
  else if upper method ∈ safeMethods then some .read
  else some .write

def apiKeyScopeDenial (method path : List Char) (rawScopes : Option (List Char)) : Option String :=
  match requiredApiKeyScope method path with
  | none =>
    some (upper method ++ " " ++ String.ofList path ++ " cannot be accessed with an API key.")
  | some required =>
    if required ∈ grantedScopes rawScopes then none
    else some ("This API key lacks the '" ++ required.text ++ "' scope required for " ++
      upper method ++ " " ++ String.ofList path ++ ".")

/-! ## What a list of scopes is worth -/

/-- The scopes are nested. -/
def Scope.rank : Scope → Nat
  | .read => 1
  | .write => 2
  | .admin => 3

/-- What a key may do is told by one number. -/
def authority (rawScopes : Option (List Char)) : Nat :=
  ((parseScopes rawScopes).map fun name => (Scope.ofName name).elim 0 Scope.rank).foldr max 0

theorem mem_grants_iff {s t : Scope} : s ∈ t.grants ↔ s.rank ≤ t.rank := by
  cases s <;> cases t <;> decide

theorem le_foldr_max {l : List Nat} {n : Nat} (positive : 0 < n) :
    n ≤ l.foldr max 0 ↔ ∃ m ∈ l, n ≤ m := by
  induction l with
  | nil => simp; omega
  | cons m l ih => simp [ih]

theorem Scope.rank_pos (s : Scope) : 0 < s.rank := by
  cases s <;> decide

/-- A scope is held just when the authority reaches it. -/
theorem mem_grantedScopes_iff {s : Scope} {rawScopes : Option (List Char)} :
    s ∈ grantedScopes rawScopes ↔ s.rank ≤ authority rawScopes := by
  rw [authority, le_foldr_max s.rank_pos, grantedScopes, List.mem_flatMap]
  simp only [List.mem_map, exists_exists_and_eq_and]
  apply exists_congr
  intro name
  apply and_congr_right
  intro _
  cases Scope.ofName name with
  | none => simpa using s.rank_pos.ne'
  | some t => exact mem_grants_iff

theorem apiKeyScopeDenial_eq_none_iff {method path : List Char} {rawScopes : Option (List Char)} :
    apiKeyScopeDenial method path rawScopes = none ↔
      ∃ required, requiredApiKeyScope method path = some required ∧
        required.rank ≤ authority rawScopes := by
  rw [apiKeyScopeDenial]
  cases requiredApiKeyScope method path with
  | none => simp
  | some required => simp [mem_grantedScopes_iff]

/-! ## The middleware -/

/-- The columns of `ApiKey` that are read, with the hashes that find it. -/
structure ApiKey (δ : Type) where
  id : String
  userId : List Char
  keyHash : δ
  publishableKeyHash : Option δ
  scopes : List Char
  allowedDomains : Option (List Char)
  rateLimit : Int
  isActive : Bool
  expiresAt : Option Int

/-- A request, as far as the middlewares of authentication read it. -/
structure Request where
  method : List Char
  path : List Char
  apiKey : Option (List Char)
  origin : Option (List Char)
  referer : Option (List Char)
  authorization : Option (List Char)

/-- What the limiter says, unless it is out of reach. -/
structure RateInfo where
  isAllowed : Bool
  remaining : Int
  resetIn : Int

/-- What the middleware asks for. -/
structure Services (δ : Type) where
  hashKey : List Char → δ
  /-- The scheme and the host; nothing where the parser raises. -/
  urlparse : List Char → Option (List Char × List Char)
  /-- The rows of the table, unless the database fails. -/
  apiKeys : Option (List (ApiKey δ))
  isAllowed : ApiKey δ → Option RateInfo
  now : Int

structure ErrorResponse where
  status : Nat
  code : String
  message : String
  headers : List (String × Int)
deriving DecidableEq

/-- What is put on `request.state`. -/
structure KeyState where
  apiKeyUserId : List Char
  apiKeyId : String
  apiKeyScopes : List Char
  apiKeyIsPublishable : Bool
deriving DecidableEq

inductive Outcome
  | refused (response : ErrorResponse)
  | raised
  | passed (state : Option KeyState)
deriving DecidableEq

/-- The outcome, and the buckets for which the limiter has answered. -/
structure Verdict where
  outcome : Outcome
  counted : List String
deriving DecidableEq

def exemptPaths : List String := ["/health", "/api/docs", "/api/redoc", "/api/v1/openapi.json"]

/-- Paths that need no key, and the requests of a browser before another one. -/
def Request.isExempt (r : Request) : Bool :=
  exemptPaths.any (fun exempt => exempt.toList.isPrefixOf r.path) || r.method = "OPTIONS".toList

def Request.isEmbed (r : Request) : Bool := "/api/v1/embed".toList.isPrefixOf r.path

/-- `rstrip("/")` -/
def stripSlashes (text : List Char) : List Char := (text.reverse.dropWhile (· = '/')).reverse

/-- Nothing where the parser raises. -/
def extractOrigin (urlparse : List Char → Option (List Char × List Char)) (r : Request) :
    Option (Option (List Char)) :=
  match r.origin.filter (· ≠ []) with
  | some origin => some (some (stripSlashes origin))
  | none =>
    match r.referer.filter (· ≠ []) with
    | none => some none
    | some referer => (urlparse referer).map fun (scheme, netloc) =>
        if scheme ≠ [] ∧ netloc ≠ [] then some (scheme ++ [':', '/', '/'] ++ netloc) else none

def isDomainAllowed (origin allowedDomains : Option (List Char)) : Bool :=
  match allowedDomains.filter (· ≠ []) with
  | none => true
  | some domains =>
    let allowed := ((domains.splitOn ',').filter (strip · ≠ [])).map fun d => stripSlashes (strip d)
    if allowed = [] then true
    else match origin.filter (· ≠ []) with
      | none => false
      | some origin => origin ∈ allowed

section
variable {δ : Type} (sv : Services δ)

def isPublishable (rawKey : List Char) : Bool := "giga_pub_".toList.isPrefixOf rawKey

/-- A failing query, or one with several rows, finds no key. -/
def lookupKey [DecidableEq δ] (rawKey : List Char) (publishable : Bool) : Option (ApiKey δ) :=
  let hash := sv.hashKey rawKey
  match sv.apiKeys.map fun keys => keys.filter fun k =>
      (if publishable then k.publishableKeyHash = some hash else k.keyHash = hash) ∧ k.isActive with
  | some [key] => some key
  | _ => none

def bucketKey (key : ApiKey δ) : String := "api_key:" ++ key.id

/-- The headers of an answer to a request over the limit. -/
def limitHeaders (key : ApiKey δ) (info : RateInfo) : List (String × Int) :=
  [("X-RateLimit-Limit", key.rateLimit), ("X-RateLimit-Remaining", info.remaining),
    ("X-RateLimit-Reset", info.resetIn), ("Retry-After", info.resetIn)]

def refuse (status : Nat) (code message : String) : Outcome := .refused ⟨status, code, message, []⟩

def KeyState.of (key : ApiKey δ) (publishable : Bool) : KeyState where
  apiKeyUserId := key.userId
  apiKeyId := key.id
  apiKeyScopes := if publishable then ['e', 'm', 'b', 'e', 'd'] else key.scopes
  apiKeyIsPublishable := publishable

/-- What follows the limiter: the scopes of a secret key, and the identity. -/
def afterLimit (r : Request) (key : ApiKey δ) (publishable : Bool) : Outcome :=
  match if publishable then none else apiKeyScopeDenial r.method r.path (some key.scopes) with
  | some denial => refuse 403 "API_KEY_SCOPE_DENIED" denial
  | none => .passed (some (KeyState.of key publishable))

/-- What the limiter makes of the request: where it is out of reach, the request goes on. -/
def limited (r : Request) (key : ApiKey δ) (publishable : Bool) : Verdict :=
  match sv.isAllowed key with
  | none => ⟨afterLimit r key publishable, []⟩
  | some info =>
    if info.isAllowed then ⟨afterLimit r key publishable, [bucketKey key]⟩
    else ⟨.refused ⟨429, "RATE_LIMIT_EXCEEDED", "Rate limit exceeded. Try again in " ++
      toString info.resetIn ++ " seconds.", limitHeaders key info⟩, [bucketKey key]⟩

/-- What follows the lookup of a key. -/
def withKey (r : Request) (key : ApiKey δ) (publishable : Bool) : Verdict :=
  if publishable && !r.isEmbed then
    ⟨refuse 403 "API_KEY_SCOPE_DENIED" "Publishable keys can only access embed endpoints.", []⟩
  else if key.expiresAt.any (· < sv.now) then
    ⟨refuse 401 "API_KEY_EXPIRED" "API key has expired.", []⟩
  else match extractOrigin sv.urlparse r with
    | none => ⟨.raised, []⟩
    | some origin =>
      if isDomainAllowed origin key.allowedDomains = false then
        ⟨refuse 403 "API_KEY_DOMAIN_NOT_ALLOWED"
          "Request origin is not permitted for this API key.", []⟩
      else limited sv r key publishable

def dispatch [DecidableEq δ] (r : Request) : Verdict :=
  if r.isExempt then ⟨.passed none, []⟩
  else match r.apiKey.filter (· ≠ []) with
    | none => ⟨.passed none, []⟩
    | some rawKey =>
      match lookupKey sv rawKey (isPublishable rawKey) with
      | none => ⟨refuse 401 "API_KEY_INVALID" "API key is invalid or has been revoked.", []⟩
      | some key => withKey sv r key (isPublishable rawKey)

/-! ## Which requests are let through -/

theorem afterLimit_passed_iff {r : Request} {key : ApiKey δ} {publishable : Bool}
    {state : KeyState} :
    afterLimit r key publishable = .passed (some state) ↔
      (publishable = false → ∃ required, requiredApiKeyScope r.method r.path = some required ∧
        required.rank ≤ authority (some key.scopes)) ∧ state = KeyState.of key publishable := by
  rw [afterLimit, ← apiKeyScopeDenial_eq_none_iff]
  cases publishable with
  | true => simp [eq_comm]
  | false =>
    simp only [Bool.false_eq_true, if_false, true_imp_iff]
    cases apiKeyScopeDenial r.method r.path (some key.scopes) with
    | none => simp [eq_comm]
    | some denial => simp [refuse]

/-- The request is put to the limiter. -/
structure Presentable (r : Request) (key : ApiKey δ) (publishable : Bool) : Prop where
  embed : publishable = true → r.isEmbed = true
  unexpired : ∀ t ∈ key.expiresAt, sv.now ≤ t
  origin : ∃ origin, extractOrigin sv.urlparse r = some origin ∧
    isDomainAllowed origin key.allowedDomains = true

theorem withKey_of_presentable {r : Request} {key : ApiKey δ} {publishable : Bool}
    (h : Presentable sv r key publishable) :
    withKey sv r key publishable = limited sv r key publishable := by
  obtain ⟨origin, found, allowed⟩ := h.origin
  have embed : (publishable && !r.isEmbed) = false := by
    cases publishable with
    | false => rfl
    | true => simp [h.embed rfl]
  have unexpired : key.expiresAt.any (· < sv.now) = false := by
    rw [Option.any_eq_false]
    simpa using h.unexpired
  rw [withKey, if_neg (by simp [embed]), if_neg (by simp [unexpired]), found]
  exact if_neg (by simp [allowed])

theorem withKey_of_not_presentable {r : Request} {key : ApiKey δ} {publishable : Bool}
    (h : ¬Presentable sv r key publishable) :
    (∀ state, (withKey sv r key publishable).outcome ≠ .passed state) ∧
      (withKey sv r key publishable).counted = [] := by
  rw [withKey]
  split
  · exact ⟨nofun, rfl⟩
  · rename_i embed
    split
    · exact ⟨nofun, rfl⟩
    · rename_i unexpired
      split
      · exact ⟨nofun, rfl⟩
      · rename_i origin found
        split
        · exact ⟨nofun, rfl⟩
        · rename_i allowed
          exact absurd ⟨by simpa using embed, by simpa [Option.any_eq_false] using unexpired,
            origin, found, by simpa using allowed⟩ h

theorem limited_passed_iff {r : Request} {key : ApiKey δ} {publishable : Bool} {state : KeyState} :
    (limited sv r key publishable).outcome = .passed (some state) ↔
      (∀ info ∈ sv.isAllowed key, info.isAllowed = true) ∧
        afterLimit r key publishable = .passed (some state) := by
  rw [limited]
  cases sv.isAllowed key with
  | none => simp
  | some info =>
    cases allowed : info.isAllowed with
    | false => simp [allowed]
    | true => simp [allowed]

theorem withKey_passed_iff {r : Request} {key : ApiKey δ} {publishable : Bool} {state : KeyState} :
    (withKey sv r key publishable).outcome = .passed (some state) ↔
      Presentable sv r key publishable ∧ (∀ info ∈ sv.isAllowed key, info.isAllowed = true) ∧
        (publishable = false → ∃ required, requiredApiKeyScope r.method r.path = some required ∧
          required.rank ≤ authority (some key.scopes)) ∧ state = KeyState.of key publishable := by
  by_cases h : Presentable sv r key publishable
  · rw [withKey_of_presentable sv h, limited_passed_iff, afterLimit_passed_iff, and_iff_right h]
  · exact iff_of_false ((withKey_of_not_presentable sv h).1 _) fun all => h all.1

/-- The request carries the key. -/
structure Presents [DecidableEq δ] (r : Request) (rawKey : List Char) (key : ApiKey δ) : Prop where
  guarded : r.isExempt = false
  carried : r.apiKey = some rawKey
  proper : rawKey ≠ []
  found : lookupKey sv rawKey (isPublishable rawKey) = some key

theorem dispatch_of_presents [DecidableEq δ] {r : Request} {rawKey : List Char} {key : ApiKey δ}
    (h : Presents sv r rawKey key) : dispatch sv r = withKey sv r key (isPublishable rawKey) := by
  have carried : r.apiKey.filter (· ≠ []) = some rawKey := by simp [h.carried, h.proper]
  rw [dispatch, if_neg (by simp [h.guarded]), carried]
  simp only [h.found]

theorem dispatch_of_presents_none [DecidableEq δ] {r : Request}
    (h : ¬∃ rawKey key, Presents sv r rawKey key) :
    (∀ state, (dispatch sv r).outcome ≠ .passed (some state)) ∧ (dispatch sv r).counted = [] := by
  rw [dispatch]
  split
  · exact ⟨nofun, rfl⟩
  · rename_i guarded
    split
    · exact ⟨nofun, rfl⟩
    · rename_i rawKey carried
      obtain ⟨here, proper⟩ := Option.filter_eq_some_iff.mp carried
      split
      · exact ⟨nofun, rfl⟩
      · rename_i key found
        exact absurd ⟨rawKey, key, by simpa using guarded, here, by simpa using proper, found⟩ h

theorem Presents.unique [DecidableEq δ] {r : Request} {rawKey rawKey' : List Char}
    {key key' : ApiKey δ} (h : Presents sv r rawKey key) (h' : Presents sv r rawKey' key') :
    rawKey' = rawKey ∧ key' = key := by
  obtain rfl := Option.some.inj (h'.carried.symm.trans h.carried)
  exact ⟨rfl, Option.some.inj (h'.found.symm.trans h.found)⟩

/-- **Which keys open a route**: a request goes on under the identity of a key just when the key
that it carries is live and unexpired, its origin is allowed, it is within the limit, and it reaches
the route, as a publishable key of an embedded editor or by the scopes of a secret key. -/
theorem dispatch_passed_iff [DecidableEq δ] {r : Request} {state : KeyState} :
    (dispatch sv r).outcome = .passed (some state) ↔ ∃ rawKey key,
      Presents sv r rawKey key ∧ Presentable sv r key (isPublishable rawKey) ∧
      (∀ info ∈ sv.isAllowed key, info.isAllowed = true) ∧
      (isPublishable rawKey = false → ∃ required,
        requiredApiKeyScope r.method r.path = some required ∧
          required.rank ≤ authority (some key.scopes)) ∧
      state = KeyState.of key (isPublishable rawKey) := by
  by_cases h : ∃ rawKey key, Presents sv r rawKey key
  · obtain ⟨rawKey, key, presents⟩ := h
    rw [dispatch_of_presents sv presents, withKey_passed_iff]
    constructor
    · intro opens
      exact ⟨rawKey, key, presents, opens⟩
    · rintro ⟨rawKey', key', presents', opens⟩
      obtain ⟨rfl, rfl⟩ := presents.unique sv presents'
      exact opens
  · refine iff_of_false ((dispatch_of_presents_none sv h).1 _) ?_
    rintro ⟨rawKey, key, presents, -⟩
    exact h ⟨rawKey, key, presents⟩

theorem limited_counted_iff {r : Request} {key : ApiKey δ} {publishable : Bool} {bucket : String} :
    bucket ∈ (limited sv r key publishable).counted ↔
      (sv.isAllowed key).isSome ∧ bucket = bucketKey key := by
  rw [limited]
  cases sv.isAllowed key with
  | none => simp
  | some info =>
    cases allowed : info.isAllowed with
    | false => simp [allowed]
    | true => simp [allowed]

/-- **What counts against a key**: the bucket of a key counts each request that presents the key
live, unexpired and from an allowed origin, whether or not the limit or the scopes then refuse it,
and no other request. -/
theorem dispatch_counted_iff [DecidableEq δ] {r : Request} {bucket : String} :
    bucket ∈ (dispatch sv r).counted ↔ ∃ rawKey key, Presents sv r rawKey key ∧
      Presentable sv r key (isPublishable rawKey) ∧ (sv.isAllowed key).isSome ∧
      bucket = bucketKey key := by
  by_cases h : ∃ rawKey key, Presents sv r rawKey key
  · obtain ⟨rawKey, key, presents⟩ := h
    rw [dispatch_of_presents sv presents]
    by_cases presentable : Presentable sv r key (isPublishable rawKey)
    · rw [withKey_of_presentable sv presentable, limited_counted_iff]
      constructor
      · intro counted
        exact ⟨rawKey, key, presents, presentable, counted⟩
      · rintro ⟨rawKey', key', presents', -, counted⟩
        obtain ⟨rfl, rfl⟩ := presents.unique sv presents'
        exact counted
    · rw [(withKey_of_not_presentable sv presentable).2]
      refine iff_of_false List.not_mem_nil ?_
      rintro ⟨rawKey', key', presents', presentable', -⟩
      obtain ⟨rfl, rfl⟩ := presents.unique sv presents'
      exact presentable presentable'
  · rw [(dispatch_of_presents_none sv h).2]
    refine iff_of_false List.not_mem_nil ?_
    rintro ⟨rawKey, key, presents, -⟩
    exact h ⟨rawKey, key, presents⟩

/-! ## Where no key leads -/

/-- `/api/v1/admin` and `/api/v1/account`, with what is below them. -/
def Request.isForbidden (r : Request) : Bool := apiKeyForbiddenPrefixes.any (matchesPrefix r.path)

theorem prefix_of_matchesPrefix {path : List Char} {front : String}
    (matched : matchesPrefix path front = true) : front.toList <+: path := by
  rw [matchesPrefix, Bool.or_eq_true, decide_eq_true_iff, List.isPrefixOf_iff_prefix] at matched
  obtain rfl | below := matched
  · exact List.prefix_refl _
  · exact (List.prefix_append _ _).trans below

/-- Two texts of which none begins with the other are not both in front of one path. -/
theorem not_prefix_of_prefix {a b path : List Char} (apart : ¬a <+: b ∧ ¬b <+: a)
    (front : a <+: path) : ¬b <+: path := fun front' =>
  (List.prefix_or_prefix_of_prefix front front').elim apart.1 apart.2

theorem isForbidden_apart {r : Request} (forbidden : r.isForbidden = true) :
    exemptPaths.any (fun exempt => exempt.toList.isPrefixOf r.path) = false ∧
      r.isEmbed = false := by
  obtain ⟨front, mem, matched⟩ := List.any_eq_true.mp forbidden
  have ahead := prefix_of_matchesPrefix matched
  have apart : ∀ front ∈ apiKeyForbiddenPrefixes, ∀ other ∈ "/api/v1/embed" :: exemptPaths,
      ¬front.toList <+: other.toList ∧ ¬other.toList <+: front.toList := by decide
  constructor
  · rw [List.any_eq_false]
    intro exempt there
    simpa using not_prefix_of_prefix (apart front mem exempt (List.mem_cons_of_mem _ there)) ahead
  · have other := not_prefix_of_prefix (apart front mem _ List.mem_cons_self) ahead
    rwa [← List.isPrefixOf_iff_prefix, Bool.not_eq_true] at other

theorem requiredApiKeyScope_of_isForbidden {r : Request} (forbidden : r.isForbidden = true) :
    requiredApiKeyScope r.method r.path = none := if_pos forbidden

theorem limited_passed_none {r : Request} {key : ApiKey δ} {publishable : Bool} :
    (limited sv r key publishable).outcome ≠ .passed none := by
  have after : afterLimit r key publishable ≠ .passed none := by
    rw [afterLimit]
    split <;> nofun
  rw [limited]
  split
  · exact after
  · split
    · exact after
    · nofun

/-- A request goes on without an identity where it needs no key or carries none. -/
theorem dispatch_passed_none_iff [DecidableEq δ] {r : Request} :
    (dispatch sv r).outcome = .passed none ↔
      r.isExempt = true ∨ r.apiKey.filter (· ≠ []) = none := by
  rw [dispatch]
  split
  · rename_i exempt
    exact iff_of_true rfl (.inl exempt)
  · rename_i guarded
    split
    · rename_i bare
      exact iff_of_true rfl (.inr bare)
    · rename_i rawKey carried
      refine iff_of_false ?_ (by rw [carried]; exact not_or.mpr ⟨guarded, nofun⟩)
      split
      · nofun
      · rename_i key found
        by_cases h : Presentable sv r key (isPublishable rawKey)
        · rw [withKey_of_presentable sv h]
          exact limited_passed_none sv
        · exact (withKey_of_not_presentable sv h).1 none

/-- **No key leads to the administration of the platform or to an account**: a request that carries
a key is refused there, whatever key it is and whatever else the request carries. -/
theorem dispatch_isForbidden [DecidableEq δ] {r : Request} (carried : r.apiKey.any (· ≠ []))
    (method : r.method ≠ "OPTIONS".toList) (forbidden : r.isForbidden = true)
    (state : Option KeyState) : (dispatch sv r).outcome ≠ .passed state := by
  obtain ⟨guarded, embed⟩ := isForbidden_apart forbidden
  cases state with
  | none =>
    rw [Ne, dispatch_passed_none_iff, Request.isExempt, guarded]
    cases key : r.apiKey with
    | none => simp [key] at carried
    | some rawKey =>
      have proper : rawKey ≠ [] := by simpa [key] using carried
      rw [decide_eq_false method]
      simp [proper]
  | some state =>
    intro passed
    obtain ⟨rawKey, key, -, presentable, -, scopes, -⟩ := (dispatch_passed_iff sv).mp passed
    cases publishable : isPublishable rawKey with
    | true =>
      have there := presentable.embed publishable
      rw [embed] at there
      cases there
    | false =>
      obtain ⟨required, reached, -⟩ := scopes publishable
      rw [requiredApiKeyScope_of_isForbidden forbidden] at reached
      cases reached

end

end GigaPdf.ApiKeys
