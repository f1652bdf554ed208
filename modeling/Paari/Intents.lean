import Paari.Auth

/-!
# Payment intents and step-up approval

`submit_payment_intent` runs governance over one payment request and mints a
bounded authorization when everything passes. A request that needs step-up parks
as `review`; `request_mfa_challenge` and `verify_mfa_challenge` let the parent
authority sign it through.

An intent is inserted under a unique constraint on (agent, idempotency key). The
loser of that race rolls back, adopts the row that is already there and goes on.
-/

namespace Paari

open Host (MINUTE MFA_CHALLENGE_TTL)

def VELOCITY_WINDOW : Int := MINUTE
def VELOCITY_MAX_INTENTS : Nat := 5
def REVIEW_TTL : Int := 5 * MINUTE

structure PolicyResult where
  name : String
  passed : Bool
  detail : String

def PolicyResult.json (r : PolicyResult) : Json :=
  .dict [("name", .str r.name), ("passed", .bool r.passed), ("detail", .str r.detail)]

/-! ## Recording an intent -/

/-- What governance decided, as `_record_intent` takes it. -/
structure Verdict where
  decision : GovernanceDecision
  reasons : List String
  mfa_required : Bool := false
  review_expires_at : Option Instant := none
  /-- The instant the request captured; a denial leaves it to the insert. -/
  now : Option Instant := none
  policy_results : List PolicyResult := []

/-- `_llm_attributed`: the caller claimed an LLM origin. -/
def llm_attributed (l : LlmCausal) : Bool :=
  present l.llm_run_id || present l.llm_model || present l.llm_tool_call_id ||
    present l.llm_tool_name

/-- The row `_record_intent` inserts. -/
def intentRow (agent : Agent) (req : PaymentIntentRequest) (v : Verdict) (intent_id : String)
    (created_at : Instant) : PaymentIntent where
  intent_id := intent_id
  org_id := agent.org_id
  agent_id := agent.agent_id
  transaction_id := req.transaction_id
  idempotency_key := req.idempotency_key
  mandate_id := req.mandate_id
  merchant := req.merchant
  amount_minor_units := req.amount_minor_units
  currency := req.currency
  action := req.action
  merchant_category := req.merchant_category
  llm := req.llm
  llm_attributed := llm_attributed req.llm
  decision := v.decision
  reasons := v.reasons
  mfa_required := v.mfa_required
  mfa_verified := false
  review_expires_at := v.review_expires_at
  created_at := created_at

def jsonStrings (xs : List String) : Json := .list (xs.map Json.str)

/-- The event that says where the request came from. -/
def proposedAudit (agent : Agent) (req : PaymentIntentRequest) (parent_id : Option String)
    (intent_id : String) : AuditArgs :=
  if llm_attributed req.llm then
    { transaction_id := req.transaction_id, agent_id := agent.agent_id, parent_id := parent_id
      kind := "llm_tool_call", org_id := some agent.org_id
      detail := req.llm.detail ++ [("intent_id", .str intent_id), ("action", .str req.action),
        ("mandate_id", jsonOpt req.mandate_id)] }
  else
    { transaction_id := req.transaction_id, agent_id := agent.agent_id, parent_id := parent_id
      kind := "payment_proposed", org_id := some agent.org_id
      detail := [("intent_id", .str intent_id), ("action", .str req.action),
        ("mandate_id", jsonOpt req.mandate_id), ("llm_attributed", .bool false)] }

def decidedAudit (agent : Agent) (req : PaymentIntentRequest) (v : Verdict)
    (parent_id : Option String) (intent_id : String) : AuditArgs where
  transaction_id := req.transaction_id
  agent_id := agent.agent_id
  parent_id := parent_id
  kind := "intent_decided"
  org_id := some agent.org_id
  detail := [("intent_id", .str intent_id), ("decision", .str v.decision.value),
    ("reasons", jsonStrings v.reasons),
    ("policy_results", .list (v.policy_results.map PolicyResult.json)),
    ("amount_minor_units", .int req.amount_minor_units), ("currency", .str req.currency),
    ("merchant", .str req.merchant), ("merchant_category", jsonOpt req.merchant_category),
    ("action", .str req.action), ("mandate_id", jsonOpt req.mandate_id)] ++ req.llm.detail

/-- `_record_intent`: the row that now stands for (agent, idempotency key). It is
this request's own unless another request's was there first. -/
def record_intent (H : Host) (pending : Session) (agent : Agent) (req : PaymentIntentRequest)
    (v : Verdict) : Handler PaymentIntent := do
  let t ← Handler.now
  let n ← Handler.fresh
  let intent := intentRow agent req v (H.uuid4 n) (v.now.getD t)
  let parent ← Handler.query fun db => parent_for db agent
  let parent_id := parent.map ParentAuthority.parent_id
  let s ← record_audit H (pending ++ [.insertIntent intent])
    (proposedAudit agent req parent_id intent.intent_id)
  let s ← record_audit H s (decidedAudit agent req v parent_id intent.intent_id)
  let committed ← Handler.tryCommit s
  match committed with
  | .ok _ =>
    -- `db.refresh(intent)`
    let row ← Handler.query fun db => db.intents.find? fun i => i.intent_id == intent.intent_id
    return row.getD intent
  | .error (.insertIntent _) =>
    let existing ← Handler.query fun db => db.intents.find? fun i =>
      i.agent_id == agent.agent_id && i.idempotency_key == req.idempotency_key
    match existing with
    | some existing => return existing
    | none => .halt
  | .error _ => .halt

/-! ## Minting -/

/-- `_mint_bounded_authorization`: the row, named after its intent. -/
def mint_bounded_authorization (H : Host) (intent : PaymentIntent) :
    Handler BoundedAuthorization := do
  let now ← Handler.now
  let (token, expires_at) := H.issue_bounded_authorization_jwt now intent
  let issued_at ← Handler.now
  return {
    authorization_id := intent.intent_id, org_id := intent.org_id, intent_id := intent.intent_id
    mandate_id := intent.mandate_id, agent_id := intent.agent_id
    transaction_id := intent.transaction_id, merchant := intent.merchant
    amount_minor_units := intent.amount_minor_units, currency := intent.currency
    token := token, issued_at := issued_at, expires_at := expires_at
    max_usage := 1, usage_count := 0 }

/-- The row `_record_provider_txn` inserts. -/
def record_provider_txn (auth : BoundedAuthorization) : ProviderTransaction where
  authorization_id := auth.authorization_id
  intent_id := auth.intent_id
  agent_id := auth.agent_id
  org_id := auth.org_id
  state := .AUTHORIZED
  razorpay_order_id := none
  razorpay_payment_id := none
  webhook_event_id := none
  provider_environment := "unknown"
  provider_key_id_prefix := none
  provider_api_base := none
  attempts := 0
  last_error := none

/-- `_authorization_view` -/
def authorization_view (auth : BoundedAuthorization) : AuthorizationView where
  authorization_id := auth.authorization_id
  token := auth.token
  expires_at := auth.expires_at
  max_usage := auth.max_usage
  amount_minor_units := auth.amount_minor_units
  currency := auth.currency
  merchant := auth.merchant
  transaction_id := auth.transaction_id
  mandate_id := auth.mandate_id

def mintedAudit (H : Host) (agent : Agent) (transaction_id : String) (parent_id : Option String)
    (auth : BoundedAuthorization) (states llm : List (String × Json)) : AuditArgs where
  transaction_id := transaction_id
  agent_id := agent.agent_id
  parent_id := parent_id
  kind := "authorization_minted"
  org_id := some agent.org_id
  detail := [("authorization_id", .str auth.authorization_id),
    ("amount_minor_units", .int auth.amount_minor_units), ("currency", .str auth.currency),
    ("merchant", .str auth.merchant), ("expires_at", .str (H.isoformat auth.expires_at))] ++
    states ++ llm

/-! ## Submitting an intent -/

/-- `_deny` -/
def deny (H : Host) (pending : Session) (agent : Agent) (req : PaymentIntentRequest)
    (check : String) (reasons : List String) : Handler Reply := do
  let intent ← record_intent H pending agent req {
    decision := .deny, reasons := reasons
    policy_results := [⟨check, false, joinReasons reasons⟩] }
  return .intent {
    intent_id := intent.intent_id, transaction_id := intent.transaction_id, decision := "deny"
    reasons := reasons, mfa_required := false, authorization := none, review_expires_at := none
    mandate_id := intent.mandate_id }

/-- A trace label: stripped, cut to 120 characters, `None` when nothing is left. -/
def normalizeLabel (H : Host) (v : Option String) : Option String :=
  v.bind fun s => if slice 120 (H.strip s) = "" then none else some (slice 120 (H.strip s))

def LlmCausal.normalize (H : Host) (l : LlmCausal) : LlmCausal :=
  ⟨normalizeLabel H l.llm_run_id, normalizeLabel H l.llm_model,
    normalizeLabel H l.llm_tool_call_id, normalizeLabel H l.llm_tool_name⟩

/-- Step-up is due above four fifths of the delegated limit. -/
def stepUpRequired (agent : Agent) (amount : Int) : Bool :=
  decide (5 * amount > 4 * agent.payment_limit_minor_units)

/-- The delegation checks of `submit_payment_intent`, in its order: the first
refusal, with the name of its check. `none` when `in` raises. -/
def delegationRefusal (agent : Agent) (req : PaymentIntentRequest) (now : Instant) :
    Option (Option (String × String)) := do
  let amount := req.amount_minor_units
  let limit := agent.payment_limit_minor_units
  if agent.valid_until.any fun v => v < now then
    return some ("delegation_expiry", "agent's delegation has expired")
  else if amount ≤ 0 then
    return some ("amount_check", "amount must be positive")
  else
    let delegated ← (agent.granted_capabilities.contains req.action).toOption
    if !delegated && req.action != "payment.create" then
      return some ("capability_check", "agent not delegated capability '" ++ req.action ++ "'")
    else if amount > limit then
      return some ("limit_check", "amount " ++ toString amount ++ " exceeds delegated limit " ++
        toString limit)
    else if req.currency ≠ agent.currency then
      return some ("currency_check", "currency " ++ req.currency ++
        " does not match delegated currency " ++ agent.currency)
    else return none

/-- The six checks that have passed by the time mandates are evaluated. -/
def passedChecks (agent : Agent) (req : PaymentIntentRequest) : List PolicyResult :=
  [⟨"parent_check", true, "parent authority is active"⟩,
    ⟨"delegation_expiry", true, "agent delegation is not expired"⟩,
    ⟨"amount_check", true, "amount is positive"⟩,
    ⟨"capability_check", true, "agent is delegated capability '" ++ req.action ++ "'"⟩,
    ⟨"limit_check", true, "amount " ++ toString req.amount_minor_units ++
      " is within delegated limit " ++ toString agent.payment_limit_minor_units⟩,
    ⟨"currency_check", true, "currency " ++ req.currency ++ " matches delegated currency " ++
      agent.currency⟩]

/-- The mandate's entry in the policy results. -/
def mandateChecks (d : MandateDecision) : List PolicyResult :=
  match d.mandate with
  | none => []
  | some m =>
    ⟨"user_mandate_check", true, "mandate " ++ m.mandate_id ++ " permits this payment"⟩ ::
      if d.review then
        [⟨"user_mandate_review", false, "user mandate requires step-up/review for this amount"⟩]
      else []

def velocityChecks (recent_count : Nat) : List PolicyResult :=
  if recent_count ≥ VELOCITY_MAX_INTENTS then
    [⟨"velocity_check", false, "velocity check: " ++ toString recent_count ++
      " intents in the last minute - needs manual review"⟩]
  else []

def stepUpChecks (mfa_required : Bool) : List PolicyResult :=
  if mfa_required then
    [⟨"step_up_threshold", false, "amount close to delegated limit - step-up approval required"⟩]
  else []

/-- Governance passed: record the intent, mint its authorization. -/
def allow (H : Host) (pending : Session) (agent : Agent) (parent : ParentAuthority)
    (req : PaymentIntentRequest) (now : Instant) (results : List PolicyResult) :
    Handler Reply := do
  let intent ← record_intent H pending agent req {
    decision := .allow, reasons := ["all checks passed"], now := some now
    policy_results := results }
  let auth ← mint_bounded_authorization H intent
  let s ← record_audit H [.insertAuthorization auth, .insertTxn (record_provider_txn auth)]
    (mintedAudit H agent req.transaction_id (some parent.parent_id) auth
      [("previous_state", .str "AUTHORIZED"), ("current_state", .str "AUTHORIZED")]
      intent.llm.detail)
  Handler.commit s
  return .intent {
    intent_id := intent.intent_id, transaction_id := intent.transaction_id, decision := "allow"
    reasons := ["all checks passed"], mfa_required := false
    authorization := some (authorization_view auth), review_expires_at := none
    mandate_id := req.mandate_id }

/-- The verdict over the policy results, once no check has refused outright. -/
def decide_intent (H : Host) (pending : Session) (agent : Agent) (parent : ParentAuthority)
    (req : PaymentIntentRequest) (now : Instant) (d : MandateDecision) : Handler Reply := do
  let recent_count ← Handler.query fun db => (db.intents.filter fun i =>
    i.agent_id == agent.agent_id && decide (now - VELOCITY_WINDOW ≤ i.created_at)).length
  let mfa_required := stepUpRequired agent req.amount_minor_units
  let results := passedChecks agent req ++ mandateChecks d ++ velocityChecks recent_count ++
    stepUpChecks mfa_required
  let failed := results.filter fun r => !r.passed
  if mfa_required || !failed.isEmpty then
    let reasons := failed.map PolicyResult.detail
    let expires := if !failed.isEmpty && !mfa_required then some (now + REVIEW_TTL) else none
    let intent ← record_intent H pending agent req {
      decision := .review, reasons := reasons, mfa_required := mfa_required
      review_expires_at := expires, now := some now, policy_results := results }
    return .intent {
      intent_id := intent.intent_id, transaction_id := intent.transaction_id
      decision := "review", reasons := reasons, mfa_required := mfa_required
      authorization := none, review_expires_at := expires, mandate_id := req.mandate_id }
  allow H pending agent parent req now results

/-- `AdminApprovedTrustProvider.verify`: the reason, when it does not approve. -/
def trust_refusal (parent : ParentAuthority) : Option String :=
  if parent.status ≠ .active then some "parent is not active" else none

/-- The mandate layer of `submit_payment_intent`. -/
def mandate_layer (H : Host) (pending : Session) (agent : Agent) (parent : ParentAuthority)
    (req : PaymentIntentRequest) (now : Instant) (policy : Host.MandatePolicy) :
    Handler Reply := do
  let (d, pending) ← evaluate_mandate H pending agent.agent_id agent.org_id
    ⟨req.merchant, req.amount_minor_units, req.currency, req.merchant_category, now⟩
    policy.require_signed_mandate
  if d.state = .lapsed then
    deny H pending agent req "user_mandate_check" d.reasons
  else if policy.mandate_required && d.state = .none then
    deny H pending agent req "user_mandate_check" ["no active user payment mandate"]
  else if d.state = .active && !d.ok then
    deny H pending agent req "user_mandate_check" d.reasons
  else
    decide_intent H pending agent parent
      { req with mandate_id := d.mandate.map UserPaymentMandate.mandate_id } now d

/-- `submit_payment_intent` -/
def submit_payment_intent (H : Host) (ctx : RequestContext) (req : PaymentIntentRequest) :
    Handler Reply :=
  Handler.attempt (pure (resolve_session_token H req.session_token ctx.authorization)) fun token =>
  Handler.attempt (authenticate H ctx token none) fun ⟨agent, _, pending⟩ => do
  if req.agent_id ≠ "" ∧ req.agent_id ≠ agent.agent_id then
    return http 403 "agent_id does not match authenticated session"
  let now ← Handler.now
  -- The mandate binding is server-derived; trace labels are normalized.
  let req := { req with mandate_id := none, llm := req.llm.normalize H }
  let existing ← Handler.query fun db => db.intents.find? fun i =>
    i.agent_id == agent.agent_id && i.idempotency_key == req.idempotency_key
  match existing with
  | some existing =>
    let auth ← Handler.query fun db =>
      db.authorizations.find? fun a => a.intent_id == existing.intent_id
    return .intent {
      intent_id := existing.intent_id, transaction_id := existing.transaction_id
      decision := existing.decision.value
      reasons := existing.reasons ++ ["idempotent replay: returning original decision"]
      mfa_required := existing.mfa_required, authorization := auth.map authorization_view
      review_expires_at := existing.review_expires_at, mandate_id := existing.mandate_id }
  | none => do
  let parent ← Handler.query fun db => parent_for db agent
  match parent.filter fun p => p.status = .active with
  | none =>
    deny H pending agent req "parent_check" ["parent authority revoked, unverified, or missing"]
  | some parent =>
    match trust_refusal parent with
    | some reason => deny H pending agent req "trust_check" [reason]
    | none =>
      match delegationRefusal agent req now with
      | none => .halt
      | some (some (check, reason)) => deny H pending agent req check [reason]
      | some none =>
        match H.mandate_policy with
        | .error e => return .error e
        | .ok policy => mandate_layer H pending agent parent req now policy

/-! ## Step-up approval -/

/-- `context_to_sign`: the exact payment, bound to the challenge. -/
def context_to_sign (H : Host) (challenge : MFAChallenge) (intent : PaymentIntent) : String :=
  H.canonical_json (.dict [
    ("purpose", .str "paari_mfa_step_up"), ("challenge_id", .str challenge.challenge_id),
    ("intent_id", .str intent.intent_id), ("agent_id", .str intent.agent_id),
    ("transaction_id", .str intent.transaction_id), ("merchant", .str intent.merchant),
    ("amount_minor_units", .int intent.amount_minor_units), ("currency", .str intent.currency),
    ("nonce", .str challenge.nonce)])

/-- The intent awaits a step-up signature. -/
def PaymentIntent.awaitsStepUp (i : PaymentIntent) : Bool :=
  decide (i.decision = .review) && i.mfa_required

/-- `request_mfa_challenge` -/
def request_mfa_challenge (H : Host) (ctx : RequestContext) (req : MFAChallengeRequest) :
    Handler Reply := do
  let intent ← Handler.query fun db => db.intents.find? fun i => i.intent_id == req.intent_id
  match intent with
  | none => return http 404 "Payment intent not found"
  | some intent =>
  Handler.attempt (pure (resolve_session_token H req.session_token ctx.authorization)) fun token =>
  Handler.attempt (authenticate H ctx token (some intent.agent_id)) fun ⟨_, _, pending⟩ => do
  if !intent.awaitsStepUp then
    return http 400 "This intent does not require step-up approval"
  let now ← Handler.now
  let challenge_id ← Handler.fresh
  let nonce ← Handler.fresh
  let challenge : MFAChallenge := {
    challenge_id := H.uuid4 challenge_id, intent_id := intent.intent_id, org_id := intent.org_id
    nonce := H.uuid4 nonce, expires_at := now + MFA_CHALLENGE_TTL, used := false }
  Handler.commit (pending ++ [.voidChallenges intent.intent_id, .insertChallenge challenge])
  return .challenge {
    challenge_id := challenge.challenge_id, intent_id := intent.intent_id
    nonce := challenge.nonce, context_to_sign := context_to_sign H challenge intent
    expires_at := challenge.expires_at }

def STEP_UP_REASON : String := "step-up approval verified via parent-authority signature"

/-- The approved intent, as `verify_mfa_challenge` mints from it. -/
def PaymentIntent.approve (i : PaymentIntent) : PaymentIntent :=
  { i with decision := .allow, mfa_verified := true, reasons := i.reasons ++ [STEP_UP_REASON] }

/-- The end of `verify_mfa_challenge`: the signature holds. -/
def approve_intent (H : Host) (agent : Agent) (parent : ParentAuthority) (intent : PaymentIntent)
    (challenge : MFAChallenge) : Handler Reply := do
  let intent := intent.approve
  let auth ← mint_bounded_authorization H intent
  let s ← record_audit H
    [.useChallenge challenge.challenge_id,
      .decideIntent intent.intent_id intent.decision intent.mfa_verified intent.reasons,
      .insertAuthorization auth, .insertTxn (record_provider_txn auth)]
    { transaction_id := intent.transaction_id, agent_id := agent.agent_id
      parent_id := some parent.parent_id, kind := "mfa_verified", org_id := some agent.org_id
      detail := [("challenge_id", .str challenge.challenge_id),
        ("intent_id", .str intent.intent_id)] ++ intent.llm.detail }
  let s ← record_audit H s
    (mintedAudit H agent intent.transaction_id (some parent.parent_id) auth [] intent.llm.detail)
  Handler.commit s
  return .intent {
    intent_id := intent.intent_id, transaction_id := intent.transaction_id, decision := "allow"
    reasons := intent.reasons, mfa_required := true
    authorization := some (authorization_view auth), review_expires_at := none
    mandate_id := none }

/-- `verify_mfa_challenge` -/
def verify_mfa_challenge (H : Host) (req : MFAVerifyRequest) : Handler Reply := do
  let intent ← Handler.query fun db => db.intents.find? fun i => i.intent_id == req.intent_id
  match intent.filter PaymentIntent.awaitsStepUp with
  | none => return http 400 "This intent is not awaiting step-up approval"
  | some intent => do
  let challenge ← Handler.query fun db => db.challenges.find? fun c =>
    c.challenge_id == req.challenge_id && c.intent_id == intent.intent_id
  let now ← Handler.now
  match challenge.filter fun c => !c.used && decide (now ≤ c.expires_at) with
  | none => return http 401 "MFA challenge invalid, expired, or already used"
  | some challenge => do
  let agent ← Handler.query fun db => db.agents.find? fun a => a.agent_id == intent.agent_id
  match agent.filter fun a => a.status = .active with
  | none => return http 401 "Agent or parent authority is no longer active"
  | some agent => do
  let parent ← Handler.query fun db => parent_for db agent
  match parent.filter fun p => p.status = .active with
  | none => return http 401 "Agent or parent authority is no longer active"
  | some parent =>
    match H.verify_signature parent.public_key_pem (context_to_sign H challenge intent)
        req.parent_signature_b64 with
    | none => .halt
    | some false => return http 401 "Step-up signature verification failed"
    | some true => approve_intent H agent parent intent challenge

end Paari
