import Paari.Authority

/-!
# The service

Every modelled route as one `Request`, and the two ways the service runs: requests
one at a time (`Server.run`), each starting where the last one ended, with the
clock advancing in between, and requests in flight together, as a pool of
handlers over one world.
-/

namespace Paari

open Atomic

/-- A request to the service, or a tick of one of its background jobs. -/
inductive Request
  | register_parent (req : ParentRegistrationRequest)
  | approve_parent (parent_id x_admin_api_key : String)
  | reject_parent (parent_id x_admin_api_key : String)
  | revoke_parent (parent_id x_admin_api_key : String)
  | rotate_parent_key (parent_id new_public_key_pem x_admin_api_key : String)
  | register_agent (req : AgentRegistrationRequest)
  | v1_register_agent (envelope : Json)
  | rotate_agent_key (agent_id : String) (req : RotateKeyRequest) (x_admin_api_key : String)
  | revoke_agent (agent_id : String) (req : AgentRevokeRequest) (x_admin_api_key : String)
  | create_mandate (req : CreatePaymentMandateRequest) (x_admin_api_key : String)
  | revoke_mandate (mandate_id reason x_admin_api_key : String)
  | bind_mandate (mandate_id : String) (req : BindProviderMandateRequest)
      (x_admin_api_key : String)
  | sweep (x_admin_api_key : String)
  | submit_intent (ctx : RequestContext) (req : PaymentIntentRequest)
  | mfa_challenge (ctx : RequestContext) (req : MFAChallengeRequest)
  | mfa_verify (req : MFAVerifyRequest)
  | consume (ctx : RequestContext) (authorization_id session_token : String)
  | revoke_authorization (ctx : RequestContext) (authorization_id session_token : String)
  | webhook (raw x_razorpay_signature : String)
  | refund (ctx : RequestContext) (authorization_id : String) (req : RefundRequest)
  | reconcile (ctx : RequestContext) (authorization_id session_token : String)
  | batch (dead_letter_after : Int)

/-- The handler behind a request. -/
def handler (H : Host) : Request → Handler Reply
  | .register_parent req => register_parent H req
  | .approve_parent id key => approve_parent H id key
  | .reject_parent id key => reject_parent H id key
  | .revoke_parent id key => revoke_parent H id key
  | .rotate_parent_key id pem key => rotate_parent_key H id pem key
  | .register_agent req => register_agent H req
  | .v1_register_agent envelope => v1_register_agent H envelope
  | .rotate_agent_key id req key => rotate_agent_key H id req key
  | .revoke_agent id req key => revoke_agent H id req key
  | .create_mandate req key => create_user_payment_mandate H req key
  | .revoke_mandate id reason key => revoke_user_payment_mandate H id reason key
  | .bind_mandate id req key => bind_provider_mandate H id req key
  | .sweep key => sweep_mandate_lifecycle H key
  | .submit_intent ctx req => submit_payment_intent H ctx req
  | .mfa_challenge ctx req => request_mfa_challenge H ctx req
  | .mfa_verify req => verify_mfa_challenge H req
  | .consume ctx id token => consume_authorization H ctx id token
  | .revoke_authorization ctx id token => revoke_authorization H ctx id token
  | .webhook raw signature => razorpay_webhook H raw signature
  | .refund ctx id req => refund_authorization H ctx id req
  | .reconcile ctx id token => manual_reconcile H ctx id token
  | .batch n => run_batch H n

namespace Server

/-- One thing that happens to a service that handles one request at a time: a
request with the answers its provider calls will get, or the passing of time. -/
inductive Step
  | request (r : Request) (answers : List Answer)
  | tick (d : Nat)

/-- A request handled to completion; its session is closed afterwards. -/
def serve (H : Host) (r : Request) (answers : List Answer) (w : World) (session : Nat := 0) :
    Prog.Outcome World Call Answer Reply :=
  let o := (handler H r).eval (World.exec session) answers w
  { o with store := o.store.rollback session }

/-- One step of the sequential service. -/
def step (H : Host) (w : World) : Step → World
  | .request r answers => (serve H r answers w).store
  | .tick d => w.tick d

/-- A sequential run. -/
def run (H : Host) (w : World) (steps : List Step) : World := steps.foldl (step H) w

@[simp] theorem run_nil (H : Host) (w : World) : run H w [] = w := rfl

@[simp] theorem run_cons (H : Host) (w : World) (s : Step) (steps : List Step) :
    run H w (s :: steps) = run H (step H w s) steps := rfl

theorem run_append (H : Host) (w : World) (xs ys : List Step) :
    run H w (xs ++ ys) = run H (run H w xs) ys := by
  unfold run
  rw [List.foldl_append]

/-- An invariant of the sequential service, under a condition on its steps that may
look at the world each step starts from. -/
theorem run_invariant {H : Host} {I : World → Prop} {ok : World → Step → Prop}
    (hstep : ∀ w s, I w → ok w s → I (step H w s)) :
    ∀ (steps : List Step) (w : World), I w →
      (∀ pre s post, steps = pre ++ s :: post → ok (run H w pre) s) → I (run H w steps) := by
  intro steps
  induction steps with
  | nil => intro w hw _; exact hw
  | cons s steps ih =>
    intro w hw hok
    rw [run_cons]
    refine ih _ (hstep w s hw (hok [] s steps rfl)) ?_
    intro pre s' post h
    have := hok (s :: pre) s' post (by rw [h, List.cons_append])
    rwa [run_cons] at this

/-- An invariant that every step keeps. -/
theorem run_keeps {H : Host} {I : World → Prop} (hstep : ∀ w s, I w → I (step H w s)) :
    ∀ (steps : List Step) (w : World), I w → I (run H w steps) := by
  intro steps
  induction steps with
  | nil => intro w hw; exact hw
  | cons s steps ih => intro w hw; exact ih _ (hstep w s hw)

end Server

/-! ## The steps of a request that runs alone -/

section
variable {α β : Type} {Q : World → List (Call × Option Answer) → Option β → Prop} {w : World}
  {calls : List (Call × Option Answer)} {i : Nat}

theorem wp_query {f : DB → α} {k : α → Handler β}
    (h : (k (f w.db)).Wp (World.exec i) Q calls w) :
    (Handler.query f >>= k).Wp (World.exec i) Q calls w := h

theorem wp_now {k : Instant → Handler β} (h : (k w.clock).Wp (World.exec i) Q calls w) :
    (Handler.now >>= k).Wp (World.exec i) Q calls w := h

theorem wp_fresh {k : Nat → Handler β}
    (h : (k w.next).Wp (World.exec i) Q calls { w with next := w.next + 1 }) :
    (Handler.fresh >>= k).Wp (World.exec i) Q calls w := h

theorem wp_reserve {id : String} {spend : Spend} {k : Bool → Handler β}
    (h : (k (w.reservable id)).Wp (World.exec i) Q calls (w.exec i (.reserve id spend))) :
    (Handler.reserve id spend >>= k).Wp (World.exec i) Q calls w := h

theorem wp_record_audit {H : Host} {s : Session} {a : AuditArgs} {k : Session → Handler β}
    (h : (k (s ++ [.insertAudit (auditEvent H s a w.db w.clock)])).Wp (World.exec i) Q calls w) :
    (record_audit H s a >>= k).Wp (World.exec i) Q calls w := h

theorem wp_commit {ws : List Write} {k : Unit → Handler β}
    (hlost : ∀ x, w.db.applyAll ws = .error x → Q (w.rollback i) calls none)
    (hdone : ∀ db', w.db.applyAll ws = .ok db' →
      (k ()).Wp (World.exec i) Q calls ({ w with db := db' }.release i)) :
    (Handler.commit ws >>= k).Wp (World.exec i) Q calls w := by
  show (Handler.committed (w.db.applyAll ws) >>= k).Wp (World.exec i) Q calls (w.commit i ws)
  unfold World.commit
  cases hdb : w.db.applyAll ws with
  | ok db' => exact hdone db' hdb
  | error x => exact hlost x hdb

end

/-- What a request leaves behind, from the precondition of its handler. -/
theorem Server.serve_spec {H : Host} {r : Request} {w : World}
    {Q : World → List (Call × Option Answer) → Option Reply → Prop} (answers : List Answer) {i : Nat}
    (h : (handler H r).Wp (World.exec i) (fun w' => Q (w'.rollback i)) [] w) :
    Q (Server.serve H r answers w i).store (Server.serve H r answers w i).calls
      (Server.serve H r answers w i).value :=
  Prog.eval_spec answers h

/-! ## A deployment to run by hand

One agent of the default organization with its parent and credential, on a host
whose cryptography says yes and whose text functions do nothing. -/

namespace Sample

/-- The host, with the webhook bodies it can parse. -/
def host (postgres : Bool) (events : List (String × Json)) : Host where
  strip := fun s => s
  lower := fun s => s
  upper := fun s => s
  casefold := fun s => s
  repr := fun _ => "x"
  int := fun _ => none
  message := fun _ => "error"
  environ := fun name =>
    if name = "RAZORPAY_KEY_ID" ∨ name = "RAZORPAY_KEY_SECRET" ∨ name = "RAZORPAY_WEBHOOK_SECRET"
    then some "key" else none
  postgres := postgres
  admin_api_key := "admin"
  sql_lower := fun s => s
  strip_nonword := fun s => s
  uuid4 := fun n => String.ofList (List.replicate (n + 1) 'u')
  isoformat := fun _ => "t"
  sha256_hex := fun s => s
  sha256_head := fun s => s.length
  hmac_sha256_hex := fun _ body => body
  json_loads := fun raw => events.lookup raw
  float_repr := fun _ => "0.0"
  verify_signature := fun _ _ _ => some true
  is_ed25519_pem := fun _ => true
  jwt_encode := fun _ => "jwt"
  jwt_decode := fun _ token =>
    some ⟨some "paari_session", some token, some token, none, ""⟩
  proof_decode := fun _ _ _ => none
  token_hash := fun s => s
  import_adapter := fun _ _ => none

def parent : ParentAuthority := ⟨1, "parent", "default", "parent-key", .active, "T1"⟩

/-- The agent, under the name its session token carries. -/
def agent (capabilities : List String) (limit : Int) : Agent where
  id := 1
  agent_id := "agent"
  org_id := "default"
  parent_pk := 1
  delegation_id := "delegation"
  public_key_pem := "agent-key"
  old_public_key_pem := none
  key_sunset_at := none
  granted_capabilities := .list (capabilities.map .str)
  payment_limit_minor_units := limit
  currency := "INR"
  status := .active
  valid_until := none
  protocol_version := none

def credential : Credential := ⟨"agent", "default", 1, 0, 1000000000000000, false, none⟩

def authorization (amount : Int) : BoundedAuthorization where
  authorization_id := "auth"
  org_id := "default"
  intent_id := "intent"
  mandate_id := none
  agent_id := "agent"
  transaction_id := "trace"
  merchant := "shop"
  amount_minor_units := amount
  currency := "INR"
  token := "jwt"
  issued_at := 0
  expires_at := 1000000000000000
  max_usage := 1
  usage_count := 0

/-- The transaction of that authorization. -/
def txn (state : TxnState) (order_id payment_id event_id : Option String) : ProviderTransaction where
  authorization_id := "auth"
  intent_id := "intent"
  agent_id := "agent"
  org_id := "default"
  state := state
  razorpay_order_id := order_id
  razorpay_payment_id := payment_id
  webhook_event_id := event_id
  provider_environment := "unknown"
  provider_key_id_prefix := none
  provider_api_base := none
  attempts := 0
  last_error := none

/-- The agent, and these authorizations and transactions. -/
def db (auths : List BoundedAuthorization) (txns : List ProviderTransaction) : DB :=
  { DB.empty with
    parents := [parent]
    agents := [agent ["make_payment"] 1000]
    credentials := [credential]
    authorizations := auths
    txns := txns }

def world (d : DB) : World := ⟨d, 0, 0, [], []⟩

/-- Batches of the worker over one submitted payment of 100 INR. -/
def batches (n : Nat) : Pool World Stmt Call Answer Reply :=
  Pool.start (world (db [authorization 100] [txn .PROVIDER_SUBMITTED none (some "pay") none]))
    ((List.replicate n (.batch 5)).map (handler (host false [])))

/-- The provider's record of that payment. -/
def payment (status : String) : Answer :=
  .ok (.dict [("status", .str status), ("amount", .int 100), ("currency", .str "INR")])

/-- What a transport sends with the agent's own session. -/
def ctx : RequestContext := ⟨"POST", "/", "", ""⟩

end Sample

end Paari
