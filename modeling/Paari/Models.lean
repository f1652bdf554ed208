import Paari.Python

/-!
# The rows

One structure per table, with the columns the modelled code reads or writes.
Instants are integer microseconds since the epoch (every timestamp column is an
aware UTC `datetime`). A column that is written and never read again by the
service (`updated_at`, `reconciled_at`, `signed_jwt`, display names, …) is left
out.

`granted_capabilities` stays a JSON value: a key rotation stores whatever the
delegation document holds there, and `in` reads a list, a string and a dict
differently.
-/

namespace Paari

/-- Microseconds since the epoch. -/
abbrev Instant := Int

inductive AgentStatus
  | pending | active | revoked
deriving DecidableEq

inductive ParentStatus
  | pending_verification | active | rejected | suspended | revoked
deriving DecidableEq

inductive GovernanceDecision
  | allow | review | deny
deriving DecidableEq

/-- `GovernanceDecision.value`, the word the API answers with. -/
def GovernanceDecision.value : GovernanceDecision → String
  | allow => "allow"
  | review => "review"
  | deny => "deny"

inductive MandateStatus
  | active | revoked | expired
deriving DecidableEq

/-- The states of a `ProviderTransaction`: every key of `TRANSITION_TABLE`. -/
inductive TxnState
  | AUTHORIZED | PROVIDER_SUBMITTED | PROVIDER_AUTHORIZED | CAPTURED | PAYMENT_PENDING
  | PROVIDER_UNKNOWN | FAILED | PAID | REFUNDED | REVERSED | EXPIRED | CANCELLED | DECLINED
deriving DecidableEq

/-- The word stored in the `state` column. -/
def TxnState.word : TxnState → String
  | AUTHORIZED => "AUTHORIZED"
  | PROVIDER_SUBMITTED => "PROVIDER_SUBMITTED"
  | PROVIDER_AUTHORIZED => "PROVIDER_AUTHORIZED"
  | CAPTURED => "CAPTURED"
  | PAYMENT_PENDING => "PAYMENT_PENDING"
  | PROVIDER_UNKNOWN => "PROVIDER_UNKNOWN"
  | FAILED => "FAILED"
  | PAID => "PAID"
  | REFUNDED => "REFUNDED"
  | REVERSED => "REVERSED"
  | EXPIRED => "EXPIRED"
  | CANCELLED => "CANCELLED"
  | DECLINED => "DECLINED"

/-! ## Trust -/

structure ParentAuthority where
  id : Nat
  parent_id : String
  org_id : String
  public_key_pem : String
  status : ParentStatus
  trust_tier : String
deriving DecidableEq

/-- A consumed delegation document. -/
structure DelegationRecord where
  delegation_id : String
  org_id : String
  parent_pk : Nat
  agent_public_key_fingerprint : String
  granted_capabilities : Json
  payment_limit_minor_units : Int
  currency : String
  issued_at : Instant
  expires_at : Instant

/-- A consumed parent-signed revocation. -/
structure RevocationRecord where
  revocation_id : String
  org_id : String
  agent_id : String
deriving DecidableEq

structure Agent where
  id : Nat
  agent_id : String
  org_id : String
  parent_pk : Nat
  delegation_id : String
  public_key_pem : String
  old_public_key_pem : Option String
  key_sunset_at : Option Instant
  granted_capabilities : Json
  payment_limit_minor_units : Int
  currency : String
  status : AgentStatus
  valid_until : Option Instant
  protocol_version : Option String

structure Credential where
  credential_id : String
  org_id : String
  agent_pk : Nat
  issued_at : Instant
  expires_at : Instant
  revoked : Bool
  superseded_by : Option String
deriving DecidableEq

/-! ## User authority -/

structure UserPaymentMandate where
  mandate_id : String
  org_id : String
  user_id : String
  agent_id : String
  max_per_transaction : Int
  max_daily_amount : Int
  max_per_hour : Option Int
  max_per_merchant_per_day : Option Int
  max_category_per_day : Option Int
  currency : String
  allowed_merchants : List String
  allowed_categories : List String
  require_review_above : Option Int
  valid_from : Instant
  expires_at : Instant
  status : MandateStatus
  revoked_at : Option Instant
  signing_key_id : Option String
  signature_b64 : Option String
  user_public_key_pem : Option String
deriving DecidableEq

structure PaymentInstrumentBinding where
  binding_id : String
  org_id : String
  mandate_id : String
  provider : String
  provider_mandate_ref : String
  currency : String
  max_amount_minor_units : Int
  status : String
  expires_at : Option Instant
deriving DecidableEq

/-! ## Governance and execution -/

/-- The LLM trace labels a client may assert. -/
structure LlmCausal where
  llm_run_id : Option String
  llm_model : Option String
  llm_tool_call_id : Option String
  llm_tool_name : Option String
deriving DecidableEq

structure PaymentIntent where
  intent_id : String
  org_id : String
  agent_id : String
  transaction_id : String
  idempotency_key : String
  mandate_id : Option String
  merchant : String
  amount_minor_units : Int
  currency : String
  action : String
  merchant_category : Option String
  llm : LlmCausal
  llm_attributed : Bool
  decision : GovernanceDecision
  reasons : List String
  mfa_required : Bool
  mfa_verified : Bool
  review_expires_at : Option Instant
  created_at : Instant
deriving DecidableEq

structure MFAChallenge where
  challenge_id : String
  intent_id : String
  org_id : String
  nonce : String
  expires_at : Instant
  used : Bool
deriving DecidableEq

structure BoundedAuthorization where
  authorization_id : String
  org_id : String
  intent_id : String
  mandate_id : Option String
  agent_id : String
  transaction_id : String
  merchant : String
  amount_minor_units : Int
  currency : String
  token : String
  issued_at : Instant
  expires_at : Instant
  max_usage : Int
  usage_count : Int
deriving DecidableEq

structure ProviderTransaction where
  authorization_id : String
  intent_id : String
  agent_id : String
  org_id : String
  state : TxnState
  razorpay_order_id : Option String
  razorpay_payment_id : Option String
  webhook_event_id : Option String
  provider_environment : String
  provider_key_id_prefix : Option String
  provider_api_base : Option String
  attempts : Int
  last_error : Option String
deriving DecidableEq

/-- One link of the audit chain of a `transaction_id`. -/
structure AuditEvent where
  org_id : String
  transaction_id : String
  agent_id : String
  parent_id : Option String
  kind : String
  detail : List (String × Json)
  prev_hash : String
  event_hash : String
  created_at : Instant
  hash_version : Int

/-- A consumed per-request proof. -/
structure RequestProof where
  jti : String
  agent_id : String
  org_id : String
  issued_at : Instant
  expires_at : Instant
deriving DecidableEq

/-- Marker row: the organization has provider credentials of its own. -/
structure ProviderAccount where
  org_id : String
deriving DecidableEq

end Paari
