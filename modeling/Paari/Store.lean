import Paari.Lib.Pool
import Paari.Schemas

/-!
# The database, and what a session does to it

A handler owns one session. It reads committed rows (`select`), draws fresh
identifiers, takes a serialization gate, runs the guarded `UPDATE` of
`usage_count`, commits and rolls back. What the session has added or changed but
not yet committed travels in the handler itself as a list of `Write`s: no other
session sees it before the commit, and a dead handler loses it.

A commit is all or nothing. A unique constraint that one of its writes violates
undoes the whole transaction and the write is reported, as SQLAlchemy's
`IntegrityError` does. Writes are ORM unit-of-work writes: an `UPDATE` names its
row by key and touches only the columns that differ from what the session had
loaded, whatever the row holds by then.
-/

namespace Paari

structure DB where
  provider_accounts : List ProviderAccount
  parents : List ParentAuthority
  delegations : List DelegationRecord
  revocations : List RevocationRecord
  agents : List Agent
  credentials : List Credential
  mandates : List UserPaymentMandate
  bindings : List PaymentInstrumentBinding
  intents : List PaymentIntent
  challenges : List MFAChallenge
  authorizations : List BoundedAuthorization
  txns : List ProviderTransaction
  audits : List AuditEvent
  proofs : List RequestProof

def DB.empty : DB := ⟨[], [], [], [], [], [], [], [], [], [], [], [], [], []⟩

/-- The columns `rotate_agent_key` assigns. -/
structure Rotation where
  public_key_pem : String
  key_sunset_at : Instant
  delegation_id : String
  granted_capabilities : Json
  payment_limit_minor_units : Int
  currency : String
  valid_until : Instant

/-- One row a session inserts or updates. -/
inductive Write
  | insertParent (r : ParentAuthority)
  | setParentStatus (id : Nat) (status : ParentStatus) (trust_tier : Option String)
  | setParentKey (id : Nat) (public_key_pem : String)
  | insertDelegation (r : DelegationRecord)
  | insertRevocation (r : RevocationRecord)
  | insertAgent (r : Agent)
  | rotateAgent (id : Nat) (r : Rotation)
  | revokeAgent (id : Nat)
  | insertCredential (r : Credential)
  | revokeCredentials (agent_pk : Nat)
  | revokeCredential (credential_id : String) (superseded_by : Option String)
  | insertMandate (r : UserPaymentMandate)
  | setMandateStatus (mandate_id : String) (status : MandateStatus) (revoked_at : Option Instant)
  | insertBinding (r : PaymentInstrumentBinding)
  | insertIntent (r : PaymentIntent)
  | decideIntent (intent_id : String) (decision : GovernanceDecision) (mfa_verified : Bool)
      (reasons : List String)
  | insertChallenge (r : MFAChallenge)
  | voidChallenges (intent_id : String)
  | useChallenge (challenge_id : String)
  | insertAuthorization (r : BoundedAuthorization)
  | insertTxn (r : ProviderTransaction)
  | updateTxn (loaded cur : ProviderTransaction)
  | insertAudit (r : AuditEvent)
  | insertProof (r : RequestProof)

/-- Replace the rows of a table that `p` selects. -/
def updateWhere {α : Type} (p : α → Bool) (f : α → α) (rows : List α) : List α :=
  rows.map fun r => if p r then f r else r

/-- Append a row unless one with the same key is there. -/
def insertUnique {α : Type} (clash : α → Bool) (r : α) (rows : List α) : Option (List α) :=
  if rows.any clash then none else some (rows ++ [r])

/-- The columns of a transaction that the session changed since it loaded the row. -/
def ProviderTransaction.patch (loaded cur row : ProviderTransaction) : ProviderTransaction :=
  { row with
    state := if cur.state = loaded.state then row.state else cur.state
    razorpay_order_id :=
      if cur.razorpay_order_id = loaded.razorpay_order_id then row.razorpay_order_id
      else cur.razorpay_order_id
    razorpay_payment_id :=
      if cur.razorpay_payment_id = loaded.razorpay_payment_id then row.razorpay_payment_id
      else cur.razorpay_payment_id
    webhook_event_id :=
      if cur.webhook_event_id = loaded.webhook_event_id then row.webhook_event_id
      else cur.webhook_event_id
    provider_environment :=
      if cur.provider_environment = loaded.provider_environment then row.provider_environment
      else cur.provider_environment
    provider_key_id_prefix :=
      if cur.provider_key_id_prefix = loaded.provider_key_id_prefix
      then row.provider_key_id_prefix else cur.provider_key_id_prefix
    provider_api_base :=
      if cur.provider_api_base = loaded.provider_api_base then row.provider_api_base
      else cur.provider_api_base
    attempts := if cur.attempts = loaded.attempts then row.attempts else cur.attempts
    last_error := if cur.last_error = loaded.last_error then row.last_error else cur.last_error }

/-- A changed order id or event id is already on another row. -/
def ProviderTransaction.clashes (loaded cur row : ProviderTransaction) : Bool :=
  decide (row.authorization_id ≠ loaded.authorization_id) &&
    (decide (cur.razorpay_order_id ≠ loaded.razorpay_order_id) &&
        decide (cur.razorpay_order_id ≠ none) &&
        decide (row.razorpay_order_id = cur.razorpay_order_id) ||
      decide (cur.webhook_event_id ≠ loaded.webhook_event_id) &&
        decide (cur.webhook_event_id ≠ none) &&
        decide (row.webhook_event_id = cur.webhook_event_id))

/-- Execute one write; `none` is a violated unique constraint. -/
def DB.apply (db : DB) : Write → Option DB
  | .insertParent r => do
    let rows ← insertUnique (fun p => p.id == r.id || p.parent_id == r.parent_id) r db.parents
    return { db with parents := rows }
  | .setParentStatus id status tier =>
    some { db with
      parents := updateWhere (fun p => p.id == id)
        (fun p => { p with status := status, trust_tier := tier.getD p.trust_tier }) db.parents }
  | .setParentKey id pem =>
    some { db with
      parents := updateWhere (fun p => p.id == id)
        (fun p => { p with public_key_pem := pem }) db.parents }
  | .insertDelegation r => do
    let rows ← insertUnique (fun d => d.delegation_id == r.delegation_id) r db.delegations
    return { db with delegations := rows }
  | .insertRevocation r => do
    let rows ← insertUnique (fun d => d.revocation_id == r.revocation_id) r db.revocations
    return { db with revocations := rows }
  | .insertAgent r => do
    let rows ← insertUnique (fun a => a.id == r.id || a.agent_id == r.agent_id) r db.agents
    return { db with agents := rows }
  | .rotateAgent id n =>
    some { db with
      agents := updateWhere (fun a => a.id == id)
        (fun a => { a with
          old_public_key_pem := some a.public_key_pem
          key_sunset_at := some n.key_sunset_at
          public_key_pem := n.public_key_pem
          delegation_id := n.delegation_id
          granted_capabilities := n.granted_capabilities
          payment_limit_minor_units := n.payment_limit_minor_units
          currency := n.currency
          valid_until := some n.valid_until }) db.agents }
  | .revokeAgent id =>
    some { db with
      agents := updateWhere (fun a => a.id == id)
        (fun a => { a with status := .revoked }) db.agents }
  | .insertCredential r => do
    let rows ← insertUnique (fun c => c.credential_id == r.credential_id) r db.credentials
    return { db with credentials := rows }
  | .revokeCredentials agent_pk =>
    some { db with
      credentials := updateWhere (fun c => c.agent_pk == agent_pk)
        (fun c => { c with revoked := true }) db.credentials }
  | .revokeCredential id superseded_by =>
    some { db with
      credentials := updateWhere (fun c => c.credential_id == id)
        (fun c => { c with revoked := true, superseded_by := superseded_by.orElse fun _ => c.superseded_by })
        db.credentials }
  | .insertMandate r => do
    let rows ← insertUnique (fun m => m.mandate_id == r.mandate_id) r db.mandates
    return { db with mandates := rows }
  | .setMandateStatus id status revoked_at =>
    some { db with
      mandates := updateWhere (fun m => m.mandate_id == id)
        (fun m => { m with status := status, revoked_at := revoked_at.orElse fun _ => m.revoked_at })
        db.mandates }
  | .insertBinding r => do
    let rows ← insertUnique (fun b => b.binding_id == r.binding_id ||
      b.provider == r.provider && b.provider_mandate_ref == r.provider_mandate_ref) r db.bindings
    return { db with bindings := rows }
  | .insertIntent r => do
    let rows ← insertUnique (fun i => i.intent_id == r.intent_id ||
      i.agent_id == r.agent_id && i.idempotency_key == r.idempotency_key) r db.intents
    return { db with intents := rows }
  | .decideIntent id decision mfa_verified reasons =>
    some { db with
      intents := updateWhere (fun i => i.intent_id == id)
        (fun i => { i with decision := decision, mfa_verified := mfa_verified, reasons := reasons })
        db.intents }
  | .insertChallenge r => do
    let rows ← insertUnique (fun c => c.challenge_id == r.challenge_id) r db.challenges
    return { db with challenges := rows }
  | .voidChallenges intent_id =>
    some { db with
      challenges := updateWhere (fun c => c.intent_id == intent_id)
        (fun c => { c with used := true }) db.challenges }
  | .useChallenge id =>
    some { db with
      challenges := updateWhere (fun c => c.challenge_id == id)
        (fun c => { c with used := true }) db.challenges }
  | .insertAuthorization r => do
    let rows ← insertUnique (fun a => a.authorization_id == r.authorization_id) r db.authorizations
    return { db with authorizations := rows }
  | .insertTxn r => do
    let rows ← insertUnique (fun t => t.authorization_id == r.authorization_id) r db.txns
    return { db with txns := rows }
  | .updateTxn loaded cur =>
    if db.txns.any (ProviderTransaction.clashes loaded cur) then none
    else some { db with
      txns := updateWhere (fun t => t.authorization_id == loaded.authorization_id)
        (ProviderTransaction.patch loaded cur) db.txns }
  | .insertAudit r => some { db with audits := db.audits ++ [r] }
  | .insertProof r => do
    let rows ← insertUnique (fun p => p.jti == r.jti) r db.proofs
    return { db with proofs := rows }

/-- One transaction: every write, or the first one that a constraint refuses. -/
def DB.applyAll (db : DB) : List Write → Except Write DB
  | [] => .ok db
  | w :: ws =>
    match db.apply w with
    | some db' => db'.applyAll ws
    | none => .error w

/-! ## The shared world -/

/-- A serialization gate: the one write lock of a SQLite file, or a PostgreSQL
advisory lock. -/
inductive Gate
  | database
  | advisory (key : Int)
deriving DecidableEq

/-- A guarded `UPDATE` of `usage_count` that its session has not committed yet,
with the value it replaced. Its row stays locked until then. -/
structure Reservation where
  session : Nat
  authorization_id : String
  usage_count : Int
deriving DecidableEq

/-- Everything the handlers share: the committed rows, the clock, the supply of
fresh identifiers, and the locks sessions hold. -/
structure World where
  db : DB
  clock : Instant
  next : Nat
  gates : List (Gate × Nat)
  reserved : List Reservation

/-- What the guarded `UPDATE` stores: one more use, or all of them. -/
inductive Spend
  | consume
  | revoke
deriving DecidableEq

def Spend.usage : Spend → BoundedAuthorization → Int
  | consume, a => a.usage_count + 1
  | revoke, a => a.max_usage

/-- What a session runs against the database in one step. -/
inductive Stmt
  | select
  | fresh
  | commit (ws : List Write)
  | try_gate (g : Gate)
  | reserve (authorization_id : String) (spend : Spend)
  | rollback

namespace World

/-- The gate is free. -/
def free (w : World) (g : Gate) : Bool := w.gates.all fun h => h.1 ≠ g

/-- The guarded `UPDATE` matches a row: some use is left and nobody holds the row. -/
def reservable (w : World) (authorization_id : String) : Bool :=
  w.reserved.all (fun r => r.authorization_id ≠ authorization_id) &&
    w.db.authorizations.any fun a =>
      a.authorization_id == authorization_id && decide (a.usage_count < a.max_usage)

/-- Set the usage count of one authorization. -/
def setUsage (w : World) (authorization_id : String) (f : BoundedAuthorization → Int) : World :=
  { w with
    db := { w.db with
      authorizations := updateWhere (fun a => a.authorization_id == authorization_id)
        (fun a => { a with usage_count := f a }) w.db.authorizations } }

/-- The value the guarded `UPDATE` is about to replace. -/
def usageOf (w : World) (authorization_id : String) : Int :=
  ((w.db.authorizations.find? fun a => a.authorization_id == authorization_id).map
    BoundedAuthorization.usage_count).getD 0

/-- The session's locks are gone, with or without its changes. -/
def release (w : World) (session : Nat) : World :=
  { w with
    gates := w.gates.filter fun h => h.2 ≠ session
    reserved := w.reserved.filter fun r => r.session ≠ session }

/-- Undo the session's guarded updates and release its locks: a rollback, a
closed session, a dead process. -/
def rollback (session : Nat) (w : World) : World :=
  ((w.reserved.filter fun r => r.session = session).foldr
    (fun r w' => w'.setUsage r.authorization_id fun _ => r.usage_count) w).release session

/-- Commit the session's work, or lose all of it to a violated constraint. -/
def commit (session : Nat) (ws : List Write) (w : World) : World :=
  match w.db.applyAll ws with
  | .ok db' => { w with db := db' }.release session
  | .error _ => w.rollback session

/-- One statement of session `session`. -/
def exec (session : Nat) (s : Stmt) (w : World) : World :=
  match s with
  | .select => w
  | .fresh => { w with next := w.next + 1 }
  | .commit ws => w.commit session ws
  | .try_gate g =>
    if w.free g then { w with gates := (g, session) :: w.gates } else w.rollback session
  | .reserve id spend =>
    if w.reservable id then
      { w.setUsage id spend.usage with
        reserved := ⟨session, id, w.usageOf id⟩ :: w.reserved }
    else w
  | .rollback => w.rollback session

/-- Time passes. -/
def tick (d : Nat) (w : World) : World := { w with clock := w.clock + d }

end World

/-- Handlers over the world; the environment is the clock. -/
def machine : Atomic.Machine World Stmt Nat := ⟨World.exec, World.rollback, World.tick⟩

/-- A request handler, or a part of one. -/
abbrev Handler := Atomic.Prog World Stmt Call Answer

namespace Handler

/-- One query. -/
def query {α : Type} (f : DB → α) : Handler α := .stmt .select fun w => .ret (f w.db)

/-- `datetime.now(timezone.utc)` -/
def now : Handler Instant := .stmt .select fun w => .ret w.clock

/-- A fresh number: the next primary key, or the seed of a `uuid4`. -/
def fresh : Handler Nat := .stmt .fresh fun w => .ret w.next

/-- `db.commit()`, reporting a violated constraint. -/
def tryCommit (ws : List Write) : Handler (Except Write Unit) :=
  .stmt (.commit ws) fun w => .ret ((w.db.applyAll ws).map fun _ => ())

/-- `db.commit()` where nothing catches the `IntegrityError`. -/
def commit (ws : List Write) : Handler Unit :=
  .stmt (.commit ws) fun w =>
    match w.db.applyAll ws with
    | .ok _ => .ret ()
    | .error _ => .halt

/-- What a commit goes on to, by the database's answer. -/
def committed : Except Write DB → Handler Unit
  | .ok _ => .ret ()
  | .error _ => .halt

def rollback : Handler Unit := .stmt .rollback fun _ => .ret ()

/-- Take a gate, or roll back. -/
def tryGate (g : Gate) : Handler Bool := .stmt (.try_gate g) fun w => .ret (w.free g)

/-- The guarded `UPDATE` of `usage_count`; true when it changed its row. -/
def reserve (authorization_id : String) (spend : Spend) : Handler Bool :=
  .stmt (.reserve authorization_id spend) fun w => .ret (w.reservable authorization_id)

/-- A provider call, and what comes back. -/
def send (recipient : Recipient) (op : Op) : Handler Answer := .call ⟨recipient, op⟩ .ret

/-- Run a part of a handler that may already raise its answer. -/
def attempt {α : Type} (p : Handler (Except Reply α)) (k : α → Handler Reply) : Handler Reply :=
  p >>= fun r =>
    match r with
    | .error e => .ret e
    | .ok a => k a

/-! ## Parts that only read -/

/-- The part runs no statement but `SELECT`s, makes no call, and returns only values
that satisfy `R`. -/
def Reads {α : Type} (R : α → Prop) (p : Handler α) : Prop := p.Quiet (· = .select) R

variable {α β : Type} {R : β → Prop} {R' : α → Prop}

@[simp] theorem reads_pure {b : β} : Reads R (pure b) ↔ R b := Iff.rfl

@[simp] theorem reads_ret {b : β} : Reads R (.ret b) ↔ R b := Iff.rfl

@[simp] theorem reads_halt : Reads R (.halt : Handler β) := trivial

theorem reads_query {f : DB → α} {k : α → Handler β} (h : ∀ a, Reads R (k a)) :
    Reads R (query f >>= k) :=
  ⟨rfl, fun w => h (f w.db)⟩

theorem reads_now {k : Instant → Handler β} (h : ∀ t, Reads R (k t)) : Reads R (now >>= k) :=
  ⟨rfl, fun w => h w.clock⟩

theorem reads_bind {p : Handler α} {k : α → Handler β} (hp : Reads R' p)
    (hk : ∀ a, R' a → Reads R (k a)) : Reads R (p >>= k) :=
  Atomic.Prog.quiet_bind hp hk

/-- A commit follows a protocol if the phase it leads to goes on where the database took it. -/
theorem conforms_commit {Q : Type} {π : Atomic.Protocol World Stmt Call Answer Q}
    {Post : β → Q → Prop} {q : Q} {ws : List Write} {k : Unit → Handler β}
    (h : ∀ w, ∃ q', π.stmt q (.commit ws) w q' ∧
      ∀ db, w.db.applyAll ws = .ok db → (k ()).Conforms π Post q') :
    (commit ws >>= k).Conforms π Post q := by
  intro w
  obtain ⟨q', hs, hk⟩ := h w
  refine ⟨q', hs, ?_⟩
  show (committed (w.db.applyAll ws) >>= k).Conforms π Post q'
  cases hdb : w.db.applyAll ws with
  | ok db => exact hk db hdb
  | error x => trivial

end Handler

end Paari
