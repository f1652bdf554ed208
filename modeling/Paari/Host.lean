import Paari.Canonical
import Paari.Store

/-!
# The host: process environment, cryptography, tokens

`Host` is everything the service uses that is not its own code: environment
variables, hashing and signatures, JWTs, the JSON codec, the dialect of its
database. All of it is a parameter. A theorem about the service holds for every
host unless it names what it needs of one.
-/

namespace Paari

/-- The claims of a session token that the handlers read. -/
structure SessionClaims where
  typ : Option String
  sub : Option String
  credential_id : Option String
  protocol_version : Option String
  /-- `cnf.jkt`, stripped; empty when absent. -/
  jkt : String

/-- The claims of a request proof. -/
structure ProofClaims where
  alg : String
  typ : Option String
  sub : Option String
  htm : Option String
  htu : Option String
  ath : String
  iat : Int
  jti : Option String

/-- What an adapter or its configuration says about where its objects live. -/
structure Provenance where
  provider_environment : Option String
  provider_key_id_prefix : Option (Option String)
  provider_api_base : Option (Option String)

/-- A loaded agentic adapter class: what it says about itself without a call. -/
structure AgenticAdapter where
  supports_autonomous_settlement : Bool
  provenance : Option Provenance

structure Host extends Text where
  /-- `os.environ` -/
  environ : String → Option String
  /-- The database is PostgreSQL; otherwise it is SQLite. -/
  postgres : Bool
  /-- `security._ADMIN_API_KEY` -/
  admin_api_key : String
  /-- SQL `lower()`. -/
  sql_lower : String → String
  /-- `re.sub(r"\\W", "", s)` -/
  strip_nonword : String → String
  /-- `str(uuid.uuid4())` for the n-th draw. -/
  uuid4 : Nat → String
  isoformat : Instant → String
  sha256_hex : String → String
  /-- The first eight bytes of SHA-256, big-endian. -/
  sha256_head : String → Nat
  /-- `hmac.new(secret, body, sha256).hexdigest()` -/
  hmac_sha256_hex : String → String → String
  json_loads : String → Option Json
  /-- `float.__repr__`, and what `json` writes for what is not finite. -/
  float_repr : PyFloat → String
  /-- Ed25519 over a PEM key; `none` when the key does not load and the call raises. -/
  verify_signature : String → String → String → Option Bool
  /-- The PEM text is an Ed25519 public key. -/
  is_ed25519_pem : String → Bool
  /-- Sign a JWT payload with the service's own key. -/
  jwt_encode : Json → String
  /-- Claims of a token the service signed, unexpired at the instant. -/
  jwt_decode : Instant → String → Option SessionClaims
  /-- Claims of a proof that verifies under the PEM key at the instant. -/
  proof_decode : Instant → String → String → Option ProofClaims
  /-- Base64url of SHA-256, unpadded. -/
  token_hash : String → String
  /-- `importlib` and `getattr`: module name, class name. -/
  import_adapter : String → String → Option AgenticAdapter

namespace Host

variable (H : Host)

/-- `canonical_json` -/
def canonical_json (payload : Json) : String := Paari.canonical_json H.float_repr payload

/-- `os.environ.get(name, default)` -/
def env (name : String) (default : String := "") : String := (H.environ name).getD default

/-- `os.environ.get(name) == "1"` -/
def flag (name : String) : Bool := H.environ name == some "1"

/-! ## Time -/

def SECOND : Int := 1000000
def MINUTE : Int := 60 * SECOND
def HOUR : Int := 60 * MINUTE
def DAY : Int := 24 * HOUR

/-- `int(t.timestamp())` -/
def timestamp (t : Instant) : Int := t.tdiv SECOND

/-- `datetime.fromtimestamp(s, tz=utc)`: years 1 to 9999 of a 64-bit `time_t`. -/
def fromtimestamp (s : Int) : Except PyError Instant :=
  if -62135596800 ≤ s ∧ s ≤ 253402300799 then .ok (s * SECOND)
  else if -(2 : Int) ^ 63 ≤ s ∧ s < (2 : Int) ^ 63 then .error .valueError
  else .error .overflowError

def CREDENTIAL_TTL : Int := 90 * DAY
def BOUNDED_AUTHORIZATION_TTL : Int := 2 * MINUTE
def MFA_CHALLENGE_TTL : Int := 5 * MINUTE
def REQUEST_PROOF_TTL : Int := 90 * SECOND
def CLOCK_SKEW_LEEWAY_SECONDS : Int := 60

/-! ## Keys and tokens -/

def public_key_fingerprint (public_pem : String) : String := H.sha256_hex public_pem

/-- `decode_session_token`; `none` is a `PyJWTError`. -/
def decode_session_token (now : Instant) (token : String) : Option SessionClaims :=
  (H.jwt_decode now token).filter fun c => c.typ == some "paari_session"

/-- `issue_bounded_authorization_jwt`: the token, and when it expires. -/
def issue_bounded_authorization_jwt (now : Instant) (i : PaymentIntent) : String × Instant :=
  let expires_at := now + BOUNDED_AUTHORIZATION_TTL
  (H.jwt_encode (.dict [
    ("iss", .str "paari"), ("aud", .str "paari-payment"), ("sub", .str i.agent_id),
    ("jti", .str i.intent_id), ("iat", .int (timestamp now)),
    ("exp", .int (timestamp expires_at)), ("typ", .str "paari_bounded_authorization"),
    ("intent_id", .str i.intent_id), ("transaction_id", .str i.transaction_id),
    ("merchant", .str i.merchant), ("amount_minor_units", .int i.amount_minor_units),
    ("currency", .str i.currency), ("max_usage", .int 1),
    ("mandate_id", (i.mandate_id.map Json.str).getD .null)]), expires_at)

def is_admin_key (candidate : String) : Bool := candidate != "" && candidate == H.admin_api_key

/-- `require_admin` -/
def require_admin (x_admin_api_key : String) : Except Reply Unit :=
  if H.is_admin_key x_admin_api_key then .ok ()
  else .error (http 401 "Missing or invalid admin credentials")

/-- `require_admin_org` -/
def require_admin_org (x_admin_api_key target_org : String) : Except Reply Unit :=
  if !H.is_admin_key x_admin_api_key then
    .error (http 401 "Missing or invalid admin credentials")
  else if H.env "PAARI_ADMIN_ORG" != "" && H.env "PAARI_ADMIN_ORG" != target_org then
    .error (http 403 "Admin key is not authorized for this organization")
  else .ok ()

/-! ## Governance posture -/

inductive MandateMode
  | standard
  | autonomous
deriving DecidableEq

structure MandatePolicy where
  mode : MandateMode
  require_signed_mandate : Bool
deriving DecidableEq

def MandatePolicy.mandate_required (p : MandatePolicy) : Bool := p.mode == .autonomous

/-- `PAARI_MODE`, if it is one of the two known words. -/
def mandate_mode : Option MandateMode :=
  let raw := H.lower (H.strip (H.env "PAARI_MODE" "standard"))
  if raw = "standard" then
    some (if H.flag "PAARI_REQUIRE_USER_MANDATE" then .autonomous else .standard)
  else if raw = "autonomous" then some .autonomous
  else none

/-- `mandate_policy`: an unknown `PAARI_MODE` raises instead of degrading. -/
def mandate_policy : Except HttpError MandatePolicy :=
  match H.mandate_mode with
  | some mode => .ok ⟨mode, H.flag "PAARI_REQUIRE_SIGNED_MANDATE"⟩
  | none =>
    .error ⟨500, "Invalid PAARI_MODE " ++
      H.repr (.str (H.lower (H.strip (H.env "PAARI_MODE" "standard")))) ++
      "; expected one of ['autonomous', 'standard']. " ++
      "Refusing to start with an ambiguous governance posture.", none⟩

end Host

end Paari
