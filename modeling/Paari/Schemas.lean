import Paari.Models

/-!
# Requests, replies, provider calls

The bodies the endpoints accept and return, the exceptions the handlers tell
apart, and the calls they make to payment providers. A provider answers a call
with a JSON value or by raising; nothing else is assumed about it.
-/

namespace Paari

/-! ## Errors -/

inductive PaariErrorCode
  | UNSUPPORTED_PROTOCOL_VERSION | ENVELOPE_SIGNATURE_INVALID | DELEGATION_EXPIRED
  | SESSION_INVALID | PROOF_REPLAYED | CAPABILITY_NOT_DELEGATED | LIMIT_EXCEEDED
  | PARENT_REVOKED | AGENT_REVOKED | WEBHOOK_ORG_MISMATCH
deriving DecidableEq

/-- `HTTPException`, and `PaariHTTPException` when it has a code. -/
structure HttpError where
  status_code : Nat
  detail : String
  code : Option PaariErrorCode := none
deriving DecidableEq

/-- The exceptions a provider adapter or a handler's own `try` block may raise. -/
inductive Exc
  | http (e : HttpError)
  | timeout (text : String)
  | razorpayConfig (text : String)
  | agenticUnavailable (text : String)
  | illegalTransition (text : String)
  | python (e : PyError)
  | other (text : String)

/-- `str(exc)` -/
def Exc.text (T : Text) : Exc → String
  | http e => e.detail
  | timeout s => s
  | razorpayConfig s => s
  | agenticUnavailable s => s
  | illegalTransition s => s
  | python e => T.message e
  | other s => s

/-! ## Provider calls -/

/-- Whom a provider call is sent to: the Razorpay account of an organization, or
the agentic adapter configured for it. -/
inductive Recipient
  | razorpay (org_id key_id : String)
  | agentic (org_id : String)
deriving DecidableEq

/-- One provider operation, with its arguments. -/
inductive Op
  | create_payment (authorization_id : String) (amount_minor_units : Int) (currency : String)
      (notes : List (String × String))
  | get_payment (payment_id : String)
  | fetch_payments (order_id : String)
  | fetch_order_by_receipt (receipt : String)
  | refund (payment_id : String) (amount_minor_units : Int)
  | validate_mandate (provider_mandate_ref : String)
  | authorize_payment (authorization_id provider_mandate_ref : String) (amount_minor_units : Int)
      (currency merchant_reference idempotency_key : String)
  | capture_payment (provider_payment_ref : Json) (amount_minor_units : Int)
      (currency idempotency_key : String)
  | agentic_get_payment (provider_payment_ref : Json)

structure Call where
  recipient : Recipient
  op : Op

/-- What comes back from a provider. -/
abbrev Answer := Except Exc Json

/-! ## Requests -/

/-- The transport part of a request that the session checks read. -/
structure RequestContext where
  method : String
  path : String
  x_paari_proof : String
  authorization : String

structure PaymentIntentRequest where
  session_token : String
  agent_id : String
  transaction_id : String
  idempotency_key : String
  merchant : String
  amount_minor_units : Int
  currency : String
  action : String
  merchant_category : Option String
  /-- Server-derived; whatever the caller sends is dropped. -/
  mandate_id : Option String
  llm : LlmCausal

structure MFAChallengeRequest where
  intent_id : String
  session_token : String

structure MFAVerifyRequest where
  intent_id : String
  challenge_id : String
  parent_signature_b64 : String

structure RefundRequest where
  session_token : String
  amount_minor_units : Option Int

structure DelegationDocument where
  delegation_id : String
  parent_id : String
  agent_public_key_fingerprint : String
  granted_capabilities : List String
  payment_limit_minor_units : Int
  currency : String
  issued_at : Int
  expires_at : Int

structure AgentRegistrationRequest where
  public_key_pem : String
  delegation : DelegationDocument
  delegation_signature_b64 : String

structure AgentRevokeRequest where
  revocation_id : Option String
  issued_at : Option Int
  parent_signature_b64 : Option String

structure RotateKeyRequest where
  new_public_key_pem : String
  delegation : Json
  delegation_signature_b64 : String

structure CreatePaymentMandateRequest where
  mandate_id : Option String
  user_id : String
  agent_id : String
  max_per_transaction : Int
  max_daily_amount : Int
  max_per_hour : Option Int
  max_per_merchant_per_day : Option Int
  max_category_per_day : Option Int
  currency : String
  allowed_merchants : Option (List String)
  allowed_categories : Option (List String)
  require_review_above : Option Int
  valid_from : Option Instant
  expires_at : Instant
  user_public_key_pem : Option String
  mandate_signature_b64 : Option String
  signing_key_id : Option String

structure BindProviderMandateRequest where
  provider : String
  provider_mandate_ref : String
  currency : String
  max_amount_minor_units : Int
  expires_at : Option Instant

/-! ## Replies -/

structure AuthorizationView where
  authorization_id : String
  token : String
  expires_at : Instant
  max_usage : Int
  amount_minor_units : Int
  currency : String
  merchant : String
  transaction_id : String
  mandate_id : Option String
deriving DecidableEq

structure PaymentIntentResponse where
  intent_id : String
  transaction_id : String
  decision : String
  reasons : List String
  mfa_required : Bool
  authorization : Option AuthorizationView
  review_expires_at : Option Instant
  mandate_id : Option String
deriving DecidableEq

structure MFAChallengeResponse where
  challenge_id : String
  intent_id : String
  nonce : String
  context_to_sign : String
  expires_at : Instant
deriving DecidableEq

structure ConsumeAuthorizationResponse where
  authorization_id : String
  consumed : Bool
  remaining_uses : Int
  state : TxnState
  razorpay_order_id : Option String
  razorpay_payment_id : Json

/-- What an endpoint answers. -/
inductive Reply
  | error (e : HttpError)
  | intent (r : PaymentIntentResponse)
  | challenge (r : MFAChallengeResponse)
  | consumed (r : ConsumeAuthorizationResponse)
  /-- The 502 body of `consume_authorization` after a provider timeout. -/
  | provider_unknown (authorization_id detail : String)
  | webhook (status : String) (state : Option TxnState)
  | refunded (state : TxnState) (provider_refund_id : Json)
  | reconciled (status : String) (state : Option TxnState)
  | authorization_revoked (authorization_id : String)
  | parent (parent_id : String) (status : ParentStatus)
  | registered (agent_id credential_id : String)
  | agent_revoked (agent_id : String)
  | rotated (agent_id credential_id : String)
  | mandate (mandate_id : String) (status : MandateStatus)
  | bound (binding_id : String)
  | swept (expired_mandates expired_reviews : Nat)
  | done

/-- `raise HTTPException(status_code=…, detail=…)` -/
def http (status_code : Nat) (detail : String) : Reply := .error ⟨status_code, detail, none⟩

/-- `raise PaariHTTPException(status_code=…, code=…, detail=…)` -/
def paariHttp (status_code : Nat) (code : PaariErrorCode) (detail : String) : Reply :=
  .error ⟨status_code, detail, some code⟩

end Paari
