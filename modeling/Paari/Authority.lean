import Paari.Trust

/-!
# Mandate lifecycle, sweeps, authorization revocation

The remaining routes that change what a payment rests on: creating, binding and
revoking user mandates, the two sweepers, and burning an authorization.
-/

namespace Paari

/-! ## User mandates -/

/-- The limits of a proposed mandate: the first refusal. -/
def mandateLimitRefusal (req : CreatePaymentMandateRequest) (valid_from : Instant) :
    Option String :=
  if req.expires_at ≤ valid_from then some "expires_at must be after valid_from"
  else if req.max_per_transaction ≤ 0 ∨ req.max_daily_amount ≤ 0 then
    some "mandate limits must be positive"
  else if req.max_per_transaction > req.max_daily_amount then
    some "max_per_transaction cannot exceed max_daily_amount"
  else if req.max_per_hour.any (· ≤ 0) then some "max_per_hour must be positive when set"
  else if req.max_per_merchant_per_day.any (· ≤ 0) then
    some "max_per_merchant_per_day must be positive when set"
  else if req.max_category_per_day.any (· ≤ 0) then
    some "max_category_per_day must be positive when set"
  else none

/-- `create_user_payment_mandate` from the checked limits on. The `mandate_id`
column default is filled in at the insert, after the signature was verified. -/
def insert_mandate (H : Host) (req : CreatePaymentMandateRequest) (agent : Agent)
    (m : UserPaymentMandate) : Handler Reply := do
  let n ← Handler.fresh
  let m := { m with mandate_id := req.mandate_id.getD (H.uuid4 n) }
  let parent_id ← Handler.query fun db => (parent_for db agent).map ParentAuthority.parent_id
  let s ← record_audit H [.insertMandate m] {
    transaction_id := "mandate:" ++ m.mandate_id, agent_id := agent.agent_id
    parent_id := parent_id, kind := "user_mandate_created", org_id := some agent.org_id
    detail := [("mandate_id", .str m.mandate_id), ("user_id", .str req.user_id),
      ("max_per_transaction", .int req.max_per_transaction),
      ("max_daily_amount", .int req.max_daily_amount),
      ("max_per_hour", jsonIntOpt req.max_per_hour),
      ("max_per_merchant_per_day", jsonIntOpt req.max_per_merchant_per_day),
      ("max_category_per_day", jsonIntOpt req.max_category_per_day),
      ("currency", .str m.currency), ("signed", .bool (present m.signature_b64)),
      ("signing_key_id", jsonOpt m.signing_key_id)] }
  let committed ← Handler.tryCommit s
  match committed with
  | .ok _ => return .mandate m.mandate_id m.status
  | .error _ => return http 409 "mandate_id already exists"

/-- `create_user_payment_mandate` -/
def create_user_payment_mandate (H : Host) (req : CreatePaymentMandateRequest)
    (x_admin_api_key : String) : Handler Reply := do
  let agent ← Handler.query fun db => db.agents.find? fun a => a.agent_id == req.agent_id
  match agent with
  | none => return http 404 "Agent not found"
  | some agent =>
  Handler.attempt (pure (H.require_admin_org x_admin_api_key agent.org_id)) fun _ => do
  let now ← Handler.now
  let valid_from := req.valid_from.getD now
  match mandateLimitRefusal req valid_from with
  | some reason => return http 400 reason
  | none => do
  if H.upper req.currency ≠ H.upper agent.currency then
    return http 400 "mandate currency must match the agent currency"
  let signed := present req.mandate_signature_b64 || present req.user_public_key_pem
  let m : UserPaymentMandate := {
    mandate_id := req.mandate_id.getD "", org_id := agent.org_id, user_id := req.user_id
    agent_id := agent.agent_id, max_per_transaction := req.max_per_transaction
    max_daily_amount := req.max_daily_amount, max_per_hour := req.max_per_hour
    max_per_merchant_per_day := req.max_per_merchant_per_day
    max_category_per_day := req.max_category_per_day, currency := H.upper req.currency
    allowed_merchants := req.allowed_merchants.getD []
    allowed_categories := req.allowed_categories.getD []
    require_review_above := req.require_review_above, valid_from := valid_from
    expires_at := req.expires_at, status := .active, revoked_at := none
    signing_key_id :=
      if signed then
        some (if present req.signing_key_id then req.signing_key_id.getD "" else "user-key-1")
      else none
    signature_b64 := if signed then req.mandate_signature_b64 else none
    user_public_key_pem := if signed then req.user_public_key_pem else none }
  if !signed then insert_mandate H req agent m
  else if !(present req.mandate_signature_b64 && present req.user_public_key_pem) then
    return http 400 "signature requires both user_public_key_pem and mandate_signature_b64"
  else
    match verifyMandateSignature H (jsonOpt req.mandate_id) m with
    | none => .halt
    | some (false, reasons) =>
      return http 400 ("mandate signature rejected: " ++ joinReasons reasons)
    | some (true, _) => insert_mandate H req agent m

/-- The admin routes on a mandate. -/
def withMandate (H : Host) (mandate_id x_admin_api_key : String)
    (k : UserPaymentMandate → Handler Reply) : Handler Reply := do
  let mandate ← Handler.query fun db => db.mandates.find? fun m => m.mandate_id == mandate_id
  match mandate with
  | none => return http 404 "Mandate not found"
  | some m =>
  Handler.attempt (pure (H.require_admin_org x_admin_api_key m.org_id)) fun _ => k m

/-- `revoke_user_payment_mandate` -/
def revoke_user_payment_mandate (H : Host) (mandate_id reason x_admin_api_key : String) :
    Handler Reply :=
  withMandate H mandate_id x_admin_api_key fun m => do
  let now ← Handler.now
  let parent_id ← Handler.query fun db =>
    (db.agents.find? fun a => a.agent_id == m.agent_id && a.org_id == m.org_id).bind fun a =>
      (parent_for db a).map ParentAuthority.parent_id
  let s ← record_audit H [.setMandateStatus m.mandate_id .revoked (some now)] {
    transaction_id := "mandate:" ++ m.mandate_id, agent_id := m.agent_id, parent_id := parent_id
    kind := "user_mandate_revoked", org_id := some m.org_id
    detail := [("mandate_id", .str m.mandate_id), ("reason", .str reason)] }
  Handler.commit s
  return .mandate m.mandate_id .revoked

/-- `bind_provider_mandate` -/
def bind_provider_mandate (H : Host) (mandate_id : String) (req : BindProviderMandateRequest)
    (x_admin_api_key : String) : Handler Reply :=
  withMandate H mandate_id x_admin_api_key fun m => do
  if m.status ≠ .active then return http 409 "Mandate is not active"
  let now ← Handler.now
  if m.expires_at ≤ now ∨ now < m.valid_from then
    return http 409 "Mandate is outside its validity window"
  if H.upper req.currency ≠ H.upper m.currency then
    return http 400 "provider binding currency must match the mandate"
  if req.max_amount_minor_units > m.max_per_transaction then
    return http 400 "provider binding exceeds mandate per-transaction limit"
  let n ← Handler.fresh
  let row : PaymentInstrumentBinding := {
    binding_id := H.uuid4 n, org_id := m.org_id, mandate_id := m.mandate_id
    provider := req.provider, provider_mandate_ref := req.provider_mandate_ref
    currency := H.upper req.currency, max_amount_minor_units := req.max_amount_minor_units
    status := "active", expires_at := req.expires_at }
  -- The event is built before the flush that gives the row its id.
  let s ← record_audit H [.insertBinding row] {
    transaction_id := "mandate:" ++ m.mandate_id, agent_id := m.agent_id, parent_id := none
    kind := "provider_mandate_bound", org_id := some m.org_id
    detail := [("binding_id", .null), ("provider", .str req.provider),
      ("provider_mandate_ref", .str req.provider_mandate_ref)] }
  Handler.commit s
  return .bound row.binding_id

/-! ## Sweeps -/

/-- One expired mandate. -/
def expireMandates (H : Host) : Session → List UserPaymentMandate → Handler Session
  | s, [] => return s
  | s, m :: rest => do
    let s ← record_audit H (s ++ [.setMandateStatus m.mandate_id .expired none]) {
      transaction_id := "mandate:" ++ m.mandate_id, agent_id := m.agent_id, parent_id := none
      kind := "user_mandate_expired", org_id := some m.org_id
      detail := [("mandate_id", .str m.mandate_id),
        ("expired_at", .str (H.isoformat m.expires_at))] }
    expireMandates H s rest

/-- `sweep_expired_mandates` -/
def sweep_expired_mandates (H : Host) : Handler Nat := do
  let now ← Handler.now
  let rows ← Handler.query fun db =>
    db.mandates.filter fun m => decide (m.status = .active) && decide (m.expires_at ≤ now)
  let s ← expireMandates H [] rows
  if !rows.isEmpty then Handler.commit s
  return rows.length

def REVIEW_EXPIRED_REASON : String :=
  "review window expired without step-up approval; budget reservation released"

/-- One parked review after another. -/
def expireReviews (H : Host) : Session → List PaymentIntent → Handler Session
  | s, [] => return s
  | s, i :: rest => do
    let s ← record_audit H
      (s ++ [.decideIntent i.intent_id .deny i.mfa_verified (i.reasons ++ [REVIEW_EXPIRED_REASON])])
      { transaction_id := i.transaction_id, agent_id := i.agent_id, parent_id := none
        kind := "intent_review_expired", org_id := some i.org_id
        detail := [("intent_id", .str i.intent_id), ("previous_state", .str "review"),
          ("current_state", .str "deny"),
          ("review_expires_at", .str (H.isoformat (i.review_expires_at.getD 0)))] }
    expireReviews H s rest

/-- A parked review whose window is over. -/
def PaymentIntent.stale (i : PaymentIntent) (now : Instant) : Bool :=
  decide (i.decision = .review) && i.review_expires_at.any fun e => e ≤ now

/-- `expire_stale_reviews` -/
def expire_stale_reviews (H : Host) : Handler Nat := do
  let now ← Handler.now
  let rows ← Handler.query fun db => db.intents.filter fun i => i.stale now
  let s ← expireReviews H [] rows
  if !rows.isEmpty then Handler.commit s
  return rows.length

/-- `sweep_mandate_lifecycle` -/
def sweep_mandate_lifecycle (H : Host) (x_admin_api_key : String) : Handler Reply :=
  Handler.attempt (pure (H.require_admin x_admin_api_key)) fun _ => do
  let expired_mandates ← sweep_expired_mandates H
  let expired_reviews ← expire_stale_reviews H
  return .swept expired_mandates expired_reviews

/-! ## Burning an authorization -/

/-- `revoke_authorization` -/
def revoke_authorization (H : Host) (ctx : RequestContext)
    (authorization_id session_token : String) : Handler Reply := do
  let auth ← Handler.query fun db =>
    db.authorizations.find? fun a => a.authorization_id == authorization_id
  match auth with
  | none => return http 404 "Authorization not found"
  | some auth =>
  Handler.attempt (pure (resolve_session_token H session_token ctx.authorization)) fun token =>
  Handler.attempt (authenticate H ctx token (some auth.agent_id)) fun ⟨_, _, pending⟩ => do
  let burned ← Handler.reserve authorization_id .revoke
  if !burned then
    Handler.rollback
    return http 409 "Authorization already used or revoked"
  let s ← record_audit H pending {
    transaction_id := auth.transaction_id, agent_id := auth.agent_id, parent_id := none
    kind := "authorization_revoked", org_id := some auth.org_id
    detail := [("authorization_id", .str authorization_id)] }
  Handler.commit s
  return .authorization_revoked authorization_id

end Paari
