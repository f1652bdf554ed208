import Paari.Chain
import Paari.Governance

/-!
# The read-only endpoints

What an agent may look up with its own session: its governing mandate, a provider
binding, the audit trail of a transaction and its proof bundle. They authenticate
exactly as the endpoints that write do, burn the proof's `jti` like them, and never
commit.
-/

namespace Paari

open Atomic

/-! ## What they answer -/

/-- `_mandate_view`: the mandate, what was spent under it, and whether its signature
verifies. -/
structure MandateView where
  mandate : UserPaymentMandate
  daily_spent : Int
  daily_remaining : Int
  hourly_spent : Int
  hourly_remaining : Option Int
  merchant_daily_spent : Option Int
  category_daily_spent : Option Int
  signature_valid : Option Bool

/-- The rows a proof bundle is rendered from, with what is recomputed for it. -/
structure ProofBundle where
  transaction_id : String
  intent : PaymentIntent
  mandate : Option UserPaymentMandate
  mandate_signature : Option (Bool × List String)
  agent : Agent
  /-- The capabilities on the agent's card. -/
  capabilities : List String
  parent : ParentAuthority
  delegation : DelegationRecord
  credential : Credential
  policy_results : Json
  /-- The authorization that `causal_provenance` names. -/
  causal_authorization_id : String
  authorization : Option BoundedAuthorization
  provider_txn : Option ProviderTransaction
  revocation_id : Option String
  revoked : Bool
  chain_verified : Bool
  events : List AuditEvent

inductive Response
  | reply (r : Reply)
  | mandate (v : MandateView)
  | binding (b : PaymentInstrumentBinding)
  | trail (transaction_id : String) (chain_verified : Bool) (events : List AuditEvent)
  | bundle (b : ProofBundle)

/-- The HTTP status of an answer; an endpoint that died is a 500. -/
def Response.status_code : Option Response → Nat
  | some (.reply (.error e)) => e.status_code
  | some _ => 200
  | none => 500

/-! ## The endpoints -/

/-- The start they share: the header's session token, where it is required, and the
agent behind it. -/
def asAgent (H : Host) (ctx : RequestContext) (required : Bool) (expected : Option String)
    (k : Agent → Handler Response) : Handler Response :=
  match resolve_session_token H "" ctx.authorization with
  | .error e => return .reply e
  | .ok token =>
    if required ∧ token = "" then
      return .reply (http 401 "Authorization: Bearer <session-token> is required")
    else do
      let authed ← authenticate H ctx token expected
      match authed with
      | .error e => return .reply e
      | .ok a => k a.agent

/-- A total over the allowlist, `None` when it is zero. -/
def sumOrNone (xs : List Int) : Option Int := if xs.sum = 0 then none else some xs.sum

/-- `_mandate_view` -/
def mandate_view (H : Host) (db : DB) (m : UserPaymentMandate) (now : Instant) :
    Option MandateView := do
  let signature ← if present m.signature_b64 then
      (verify_mandate_signature H m).map some else some none
  return {
    mandate := m
    daily_spent := daily_spend db m now
    daily_remaining := max 0 (m.max_daily_amount - daily_spend db m now)
    hourly_spent := hourly_spend db m now
    hourly_remaining := m.max_per_hour.map fun cap => max 0 (cap - hourly_spend db m now)
    merchant_daily_spent := sumOrNone (m.allowed_merchants.map fun x =>
      merchant_daily_spend H db m x now)
    category_daily_spent := sumOrNone (m.allowed_categories.map fun c =>
      category_daily_spend H db m c now)
    signature_valid := signature.map Prod.fst }

/-- `get_active_user_payment_mandate` -/
def get_active_user_payment_mandate (H : Host) (ctx : RequestContext) (agent_id : String) :
    Handler Response :=
  asAgent H ctx false (some agent_id) fun agent => do
  let now ← Handler.now
  let mandate ← Handler.query fun db =>
    (active_mandates db agent.agent_id agent.org_id now).head?
  match mandate with
  | none => do
    let lapsed ← Handler.query fun db => mandate_history_exists db agent.agent_id agent.org_id
    return .reply (http 404 (if lapsed then
      "No active user payment mandate: a mandate exists for this agent but it " ++
        "has expired or been revoked"
      else "No active user payment mandate"))
  | some mandate => do
    let view ← Handler.query fun db => mandate_view H db mandate now
    match view with
    | none => .halt
    | some view => return .mandate view

/-- `get_provider_binding` -/
def get_provider_binding (H : Host) (ctx : RequestContext) (mandate_id : String) :
    Handler Response :=
  asAgent H ctx false none fun agent => do
  let binding ← Handler.query fun db => db.bindings.find? fun b =>
    b.mandate_id == mandate_id && b.org_id == agent.org_id
  match binding with
  | none => return .reply (http 404 "No provider binding for this mandate")
  | some binding => return .binding binding

/-- `query_audit` -/
def query_audit (H : Host) (ctx : RequestContext) (transaction_id : String) : Handler Response :=
  asAgent H ctx true none fun agent => do
  let events ← Handler.query fun db => db.trace transaction_id
  if events.isEmpty then
    return .reply (http 404 "No audit trail for this transaction")
  if events.any fun e => e.agent_id != agent.agent_id then
    return .reply (http 403 "This audit trail does not belong to your agent")
  if events.any fun e => e.org_id != agent.org_id then
    return .reply (http 403 "Cross-organization audit access denied")
  let verified ← Handler.query fun db => verify_chain H db transaction_id
  return .trail transaction_id verified events

/-- The agent's last issued credential, revoked or not. -/
def lastCredential (db : DB) (agent_pk : Nat) : Option Credential :=
  (db.credentials.filter fun c => c.agent_pk == agent_pk).foldl
    (fun best c => match best with
      | none => some c
      | some b => if b.issued_at < c.issued_at then some c else some b) none

/-- `.one_or_none()`: more than one row raises. -/
def oneOrNone {α : Type} : List α → Option (Option α)
  | [] => some none
  | [r] => some (some r)
  | _ => none

/-- The first `intent_decided` event's `policy_results`. -/
def policyResults (events : List AuditEvent) : Json :=
  match events.find? fun e => e.kind == "intent_decided" with
  | none => .list []
  | some e => ((e.detail.lookup "policy_results").getD (.list [])).orElse (.list [])

/-- `needle in text` -/
def mentions (needle text : String) : Bool :=
  text.toList.tails.any fun rest => needle.toList.isPrefixOf rest

/-- The capabilities of `_signed_card`: `list(granted_capabilities or [])` by their public
names. `none` when `list` raises, or the card refuses an entry that is not a string. -/
def cardCapabilities (agent : Agent) : Option (List String) := do
  let xs ← (pyList (agent.granted_capabilities.orElse (.list []))).toOption
  xs.mapM fun x => x.asStr?.map CAPABILITY_MAP

/-- Why a bundle is not assembled: a `ValueError` of `collect_proof_bundle`, or
something nothing catches. -/
inductive BundleError
  | valueError (text : String)
  | uncaught

/-- The verdict on the mandate's signature, recomputed where there is one. -/
def recheckSignature (H : Host) (mandate : Option UserPaymentMandate) :
    Except BundleError (Option (Bool × List String)) :=
  match mandate.filter fun m => present m.signature_b64 with
  | none => .ok none
  | some m => match verify_mandate_signature H m with
    | none => .error .uncaught
    | some r => .ok (some r)

/-- `collect_proof_bundle` -/
def collect_proof_bundle (H : Host) (db : DB) (transaction_id : String) :
    Except BundleError ProofBundle :=
  match db.intents.filter fun i => i.transaction_id == transaction_id with
  | [] => .error (.valueError ("unknown transaction_id: " ++ transaction_id))
  | _ :: _ :: _ => .error (.valueError ("ambiguous transaction_id: " ++ transaction_id))
  | [intent] => do
    let mandate :=
      if present intent.mandate_id then
        db.mandates.find? fun m => some m.mandate_id == intent.mandate_id
      else none
    let signature ← recheckSignature H mandate
    match db.agents.find? fun a => a.agent_id == intent.agent_id with
    | none => .error (.valueError ("unknown agent for transaction: " ++ transaction_id))
    | some agent =>
    match parent_for db agent with
    | none => .error (.valueError ("unknown parent for agent " ++ agent.agent_id))
    | some parent =>
    match db.delegations.find? fun d => d.delegation_id == agent.delegation_id with
    | none => .error (.valueError ("unknown delegation for agent " ++ agent.agent_id))
    | some delegation =>
    match lastCredential db agent.id with
    | none => .error (.valueError ("unknown credential for agent " ++ agent.agent_id))
    | some credential =>
    match oneOrNone (db.authorizations.filter fun a => a.intent_id == intent.intent_id),
        oneOrNone (db.revocations.filter fun r => r.agent_id == agent.agent_id),
        cardCapabilities agent with
    | some auth, some revocation, some capabilities =>
      -- `causal_provenance` reads `auth.authorization_id`, whether there is an `auth` or not
      match auth with
      | none => .error .uncaught
      | some causal => .ok {
          transaction_id := transaction_id, intent := intent, mandate := mandate
          mandate_signature := signature, agent := agent, capabilities := capabilities
          parent := parent, delegation := delegation, credential := credential
          policy_results := policyResults (db.trace transaction_id)
          causal_authorization_id := causal.authorization_id
          authorization := auth
          provider_txn := auth.bind fun a =>
            db.txns.find? fun t => t.authorization_id == a.authorization_id
          revocation_id := revocation.map RevocationRecord.revocation_id
          revoked := decide (agent.status = .revoked) || revocation.isSome
          chain_verified := verify_chain H db transaction_id
          events := db.trace transaction_id }
    | _, _, _ => .error .uncaught

/-- `get_proof_bundle` -/
def get_proof_bundle (H : Host) (ctx : RequestContext) (transaction_id : String) :
    Handler Response :=
  asAgent H ctx true none fun agent => do
  let bundle ← Handler.query fun db => collect_proof_bundle H db transaction_id
  match bundle with
  | .error (.valueError msg) =>
    if mentions "unknown" msg then return .reply (http 404 msg)
    else if mentions "ambiguous" msg then
      return .reply (http 409 (msg ++ " — bundle is per-payment-request; use intent_id via audit"))
    else .halt
  | .error .uncaught => .halt
  | .ok bundle =>
    if bundle.agent.agent_id ≠ agent.agent_id then
      return .reply (http 403 "This proof bundle does not belong to your agent")
    return .bundle bundle

/-! ## Every endpoint -/

/-- A request that writes, or one that only looks. -/
inductive Exchange
  | request (r : Request)
  | active_mandate (ctx : RequestContext) (agent_id : String)
  | provider_binding (ctx : RequestContext) (mandate_id : String)
  | audit (ctx : RequestContext) (transaction_id : String)
  | proof (ctx : RequestContext) (transaction_id : String)

namespace Exchange

/-- The handler behind an exchange. -/
def handler (H : Host) : Exchange → Handler Response
  | .request r => Paari.handler H r >>= fun x => pure (.reply x)
  | .active_mandate ctx agent_id => get_active_user_payment_mandate H ctx agent_id
  | .provider_binding ctx mandate_id => get_provider_binding H ctx mandate_id
  | .audit ctx transaction_id => query_audit H ctx transaction_id
  | .proof ctx transaction_id => get_proof_bundle H ctx transaction_id

/-- An exchange handled to completion; its session is closed afterwards. -/
def serve (H : Host) (e : Exchange) (answers : List Answer) (w : World) :
    Prog.Outcome World Call Answer Response :=
  let o := (handler H e).eval (World.exec 0) answers w
  { o with store := o.store.rollback 0 }

/-- One thing that happens to the service: an exchange with the answers its provider
calls will get, or the passing of time. -/
inductive Step
  | exchange (e : Exchange) (answers : List Answer)
  | tick (d : Nat)

def step (H : Host) (w : World) : Step → World
  | .exchange e answers => (serve H e answers w).store
  | .tick d => w.tick d

/-- Exchanges one at a time. -/
def run (H : Host) (w : World) (steps : List Step) : World := steps.foldl (step H) w

@[simp] theorem run_nil (H : Host) (w : World) : run H w [] = w := rfl

@[simp] theorem run_cons (H : Host) (w : World) (s : Step) (steps : List Step) :
    run H w (s :: steps) = run H (step H w s) steps := rfl

end Exchange

end Paari
