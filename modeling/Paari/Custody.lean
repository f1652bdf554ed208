import Paari.Desk
import Paari.Server

/-!
# Which provider an execution stays with

`execute` sends the payment-creating call of an authorization to the agentic adapter of
its organization, or to the organization's order-based account. Everything that later
reads or refunds the payment (`reconcile_one` by hand or in the worker, `confirm_capture`,
the refund) chooses a provider again, and always the order-based account: the choices
agree exactly where the first one was not the agentic adapter (`execution_custody`).
-/

namespace Paari

open Atomic

variable {H : Host}

/-! ## The parts that talk to a provider -/

/-- `refund_authorization` once the agent is authenticated. -/
def refund_row (H : Host) (pending : Session) (authorization_id : String) (req : RefundRequest)
    (txn : ProviderTransaction) : Handler Reply := do
  let row := Orm.fresh txn
  if row.cur.state ≠ .PAID then
    return http 409 ("Cannot refund a payment in state " ++ row.cur.state.word)
  if !present row.cur.razorpay_payment_id then
    return http 409 "No provider payment id recorded for this transaction"
  let auth ← Handler.query fun db =>
    db.authorizations.find? fun a => a.authorization_id == authorization_id
  let amount := refundAmount req auth
  if amount ≤ 0 then return http 400 "Refund amount must be positive"
  let provider ← Handler.query fun db => provider_for H db row.cur.org_id
  match provider with
  | .error _ => .halt
  | .ok provider => do
  let result ← provider.refund H (row.cur.razorpay_payment_id.getD "") amount
  match result with
  | .error exc => do
    Handler.commit (pending ++ [(row.fail (slice 2000 (exc.text H.toText))).write])
    return http 502 ("Provider refund failed: " ++ exc.text H.toText)
  | .ok result => record_refund H pending row auth amount result

theorem refund_authorization_eq (ctx : RequestContext) (authorization_id : String)
    (req : RefundRequest) :
    refund_authorization H ctx authorization_id req = (do
      let txn ← Handler.query fun db =>
        db.txns.find? fun t => t.authorization_id == authorization_id
      match txn with
      | none => return http 404 "Authorization not found"
      | some txn =>
      Handler.attempt (pure (resolve_session_token H req.session_token ctx.authorization)) fun token =>
      Handler.attempt (authenticate H ctx token (some txn.agent_id)) fun ⟨_, _, pending⟩ =>
      refund_row H pending authorization_id req txn) := rfl

/-- A part of a handler that reads or refunds the payment of one transaction. -/
inductive Later
  /-- `reconcile_one`, by hand or in the worker -/
  | reconcile (pending : Session)
  /-- `confirm_capture`, with the provider that verified the delivery -/
  | confirm (provider : RazorpayAdapter)
  /-- The rest of `refund_authorization`. -/
  | refund (pending : Session) (req : RefundRequest)

/-! ## Where the calls go -/

/-- The order-based account of an organization. -/
def account (H : Host) (org_id : String) : Recipient :=
  let resolved := RazorpayAdapter.orStr org_id "default"
  if resolved = "default" then .razorpay "default" (H.env "RAZORPAY_KEY_ID")
  else .razorpay resolved (H.env (String.append "RAZORPAY_KEY_ID__" (env_tag H resolved)))

/-- The adapter's own account. -/
def RazorpayAdapter.account (H : Host) (p : RazorpayAdapter) : Recipient := .razorpay p.org_id (p.key_id H)

/-- The organization's agentic adapter settles by itself. -/
def autonomous (H : Host) (org_id : String) : Bool :=
  match get_agentic_provider H org_id with
  | .ok a => a.supports_autonomous_settlement
  | .error _ => false

/-- Whoever resolves the provider of an organization gets its account. -/
theorem provider_for_account {db : DB} {org_id : String} {p : RazorpayAdapter}
    (h : provider_for H db org_id = .ok p) : p.account H = account H org_id := by
  unfold provider_for at h
  have hdefault : RazorpayAdapter.default.account H = .razorpay "default" (H.env "RAZORPAY_KEY_ID") := by
    simp [RazorpayAdapter.account, RazorpayAdapter.default, RazorpayAdapter.key_id,
      RazorpayAdapter.orStr]
  split at h
  · next horg =>
    obtain rfl := Except.ok.inj h
    rw [hdefault, account, horg]
    rfl
  · unfold get_provider_for_org at h
    unfold account
    extract_lets resolved tag key_id key_secret webhook_secret at h
    split at h
    · next hres =>
      obtain rfl := Except.ok.inj h
      rw [if_pos hres, hdefault]
    · next hres =>
      rw [if_neg hres]
      split at h
      · exact absurd h (by simp)
      · split at h
        · exact absurd h (by simp)
        · next hkeys =>
          split at h
          · exact absurd h (by simp)
          · obtain rfl := Except.ok.inj h
            have hkey : key_id ≠ "" := fun hkey => hkeys (.inl hkey)
            show Recipient.razorpay resolved (RazorpayAdapter.orStr key_id _) = _
            rw [RazorpayAdapter.orStr, if_neg hkey]

/-- The provider an authorization is executed through. -/
def executor (H : Host) (org_id : String) : Recipient :=
  if autonomous H org_id then .agentic org_id else account H org_id

theorem executor_eq_account (org_id : String) :
    executor H org_id = account H org_id ↔ autonomous H org_id = false := by
  unfold executor
  cases hauto : autonomous H org_id with
  | false => simp
  | true =>
    have : Recipient.agentic org_id ≠ account H org_id := by
      unfold account
      dsimp only
      split <;> simp
    simp [this]

section
variable {P : Call → Prop} {α β : Type}

theorem calls_query {f : DB → α} {k : α → Handler β} (h : ∀ a, (k a).Calls P) :
    (Handler.query f >>= k).Calls P := fun w => h (f w.db)

theorem calls_now {k : Instant → Handler β} (h : ∀ t, (k t).Calls P) :
    (Handler.now >>= k).Calls P := fun w => h w.clock

theorem calls_commit {ws : Session} {k : Unit → Handler β} (h : (k ()).Calls P) :
    (Handler.commit ws >>= k).Calls P := by
  intro w
  show (Handler.committed (w.db.applyAll ws) >>= k).Calls P
  cases w.db.applyAll ws with
  | ok db => exact h
  | error x => trivial

theorem calls_tryCommit {ws : Session} {k : Except Write Unit → Handler β} (h : ∀ r, (k r).Calls P) :
    (Handler.tryCommit ws >>= k).Calls P := fun _ => h _

theorem commit_calls {ws : Session} : (Handler.commit ws).Calls P := by
  intro w
  show (Handler.committed (w.db.applyAll ws)).Calls P
  cases w.db.applyAll ws <;> trivial

theorem calls_loadTxn {id : String} {k : Orm → Handler β} (h : ∀ row, (k row).Calls P) :
    (loadTxn id >>= k).Calls P := by
  intro w
  show (loadedTxn (w.db.txns.find? fun t => t.authorization_id == id) >>= k).Calls P
  cases w.db.txns.find? fun t => t.authorization_id == id with
  | some t => exact h _
  | none => trivial

theorem calls_audit {s : Session} {a : AuditArgs} {k : Session → Handler β}
    (h : ∀ s, (k s).Calls P) : (record_audit H s a >>= k).Calls P := fun _ => h _

theorem calls_audit_txn {s : Session} {t : ProviderTransaction} {kind : String}
    {detail : List (String × Json)} {k : Session → Handler β} (h : ∀ s, (k s).Calls P) :
    (audit_txn H s t kind detail >>= k).Calls P := fun _ _ _ => h _

theorem calls_access {x : Raised} {id : String} {k : Orm → Handler β} (h : ∀ row, (k row).Calls P) :
    (x.access id >>= k).Calls P := by
  unfold Raised.access
  split
  · exact h _
  · exact calls_loadTxn h

theorem calls_send {r : Recipient} {op : Op} {k : Answer → Handler β} (hcall : P ⟨r, op⟩)
    (h : ∀ a, (k a).Calls P) : (Handler.send r op >>= k).Calls P := ⟨hcall, h⟩

end

/-! ## Reading and refunding -/

section
variable {P : Call → Prop} {provider : RazorpayAdapter} {row : Orm} {s : Session}
  {auth : BoundedAuthorization}

theorem request_calls {op : Op} (hp : ∀ op, P ⟨provider.account H, op⟩) :
    (provider.request H op).Calls P := by
  unfold RazorpayAdapter.request
  split
  · trivial
  · exact ⟨hp op, fun _ => trivial⟩

theorem read_payment_calls (hp : ∀ op, P ⟨provider.account H, op⟩) (t : ProviderTransaction) :
    (read_payment H provider t).Calls P := by
  unfold read_payment
  split
  · exact request_calls hp
  · split
    · exact Prog.calls_bind (Prog.calls_bind (request_calls hp) fun _ => trivial) fun _ => trivial
    · trivial

theorem fetch_order_calls (hp : ∀ op, P ⟨provider.account H, op⟩) (receipt : String) :
    (provider.fetch_order_by_receipt H receipt).Calls P :=
  Prog.calls_bind (request_calls hp) fun _ => trivial

theorem commitState_calls : (commitState s row).Calls P :=
  calls_commit (calls_loadTxn fun _ => trivial)

theorem rejectConfirmation_calls {text : String} {detail : List (String × Json)} :
    (rejectConfirmation H row text detail).Calls P :=
  calls_audit_txn fun _ => commitState_calls

theorem confirmPaid_calls {p : PaymentFields} : (confirmPaid H row auth p).Calls P := by
  unfold confirmPaid
  split
  · trivial
  · exact rejectConfirmation_calls
  · split
    · exact rejectConfirmation_calls
    · dsimp only
      split
      · trivial
      · split
        · trivial
        · exact calls_audit_txn fun _ => commitState_calls

theorem confirmFailed_calls {p : PaymentFields} : (confirmFailed H row p).Calls P := by
  unfold confirmFailed
  dsimp only
  split
  · trivial
  · exact calls_audit_txn fun _ => commitState_calls

theorem confirm_capture_calls (hp : ∀ op, P ⟨provider.account H, op⟩) (row : Orm) :
    (confirm_capture H provider row).Calls P := by
  refine calls_query fun auth => ?_
  split
  · trivial
  · refine Prog.calls_bind (read_payment_calls hp _) fun payment => ?_
    split
    · exact commitState_calls
    · split
      · trivial
      · split
        · trivial
        · split
          · exact confirmPaid_calls
          · split
            · exact confirmFailed_calls
            · trivial

theorem reconcileCommit_calls {status : String} : (reconcileCommit s row status).Calls P :=
  Prog.calls_bind commitState_calls fun _ => trivial

theorem reconcileExit_calls {to_state : TxnState} {ref : String × Json} :
    (reconcileExit H s row to_state ref).Calls P := by
  unfold reconcileExit
  dsimp only
  split
  · trivial
  · exact calls_audit_txn fun _ => reconcileCommit_calls

theorem finishAdoption_calls {target : TxnState} {p : PaymentFields} :
    (finishAdoption s row target p).Calls P := by
  unfold finishAdoption
  split
  · split
    · trivial
    · exact reconcileCommit_calls
  · exact reconcileCommit_calls

theorem rejectPayment_calls {p : PaymentFields} {text : String} :
    (rejectPayment H s row auth p text).Calls P :=
  calls_audit_txn fun _ => reconcileCommit_calls

theorem adopt_payment_calls {p : PaymentFields} : (adopt_payment H s row auth p).Calls P := by
  unfold adopt_payment
  split
  · trivial
  · split
    · trivial
    · exact rejectPayment_calls
    · split
      · exact rejectPayment_calls
      · split
        · exact finishAdoption_calls
        · split
          · trivial
          · exact calls_query fun _ => calls_audit_txn fun _ => finishAdoption_calls

theorem adopt_status_calls {payment : Json} : (adopt_status H s row auth payment).Calls P := by
  unfold adopt_status
  split
  · trivial
  · split
    · exact reconcileExit_calls
    · exact adopt_payment_calls

theorem reconcile_read_calls (hp : ∀ op, P ⟨provider.account H, op⟩) :
    (reconcile_read H s provider row auth).Calls P := by
  refine Prog.calls_bind (read_payment_calls hp _) fun payment => ?_
  split
  · exact reconcileCommit_calls
  · split
    · exact reconcileCommit_calls
    · unfold reconcile_payment
      split
      · exact adopt_status_calls
      · refine Prog.calls_bind (fetch_order_calls hp _) fun order => ?_
        dsimp only
        split
        · exact adopt_status_calls
        · split
          · split
            · exact reconcileExit_calls
            · split
              · exact reconcileExit_calls
              · exact adopt_status_calls
          · trivial
          · trivial

/-- `reconcile_one` asks the account of the row's organization. -/
theorem reconcile_row_calls (hp : ∀ op, P ⟨account H row.cur.org_id, op⟩) :
    (reconcile_row H s row).Calls P := by
  unfold reconcile_row
  split
  · trivial
  · refine calls_query fun auth => ?_
    split
    · trivial
    · intro w
      show ((match provider_for H w.db row.cur.org_id with
        | .error e => reconcileCommit s (row.fail (slice 2000 (e.text H.toText))) "unreconciled"
        | .ok provider => _) : Handler (Except Raised Reconciled)).Calls P
      split
      · exact reconcileCommit_calls
      · next provider hprovider =>
        have hp : ∀ op, P ⟨provider.account H, op⟩ := by
          rw [provider_for_account hprovider]
          exact hp
        split
        · refine Prog.calls_bind (fetch_order_calls hp _) fun found => ?_
          split
          · trivial
          · split
            · exact reconcile_read_calls hp
            · split
              · trivial
              · split
                · exact reconcile_read_calls hp
                · split
                  · trivial
                  · exact reconcile_read_calls hp
        · exact reconcile_read_calls hp

theorem record_refund_calls {a : Option BoundedAuthorization} {amount : Int} {result : Json} :
    (record_refund H s row a amount result).Calls P := by
  unfold record_refund
  dsimp only
  split
  · trivial
  · refine calls_query fun _ => calls_query fun _ => calls_audit fun _ =>
      calls_commit (calls_loadTxn fun _ => ?_)
    split <;> trivial

/-- So does the refund. -/
theorem refund_row_calls {id : String} {req : RefundRequest} {t : ProviderTransaction}
    (hp : ∀ op, P ⟨account H t.org_id, op⟩) : (refund_row H s id req t).Calls P := by
  unfold refund_row
  dsimp only
  split
  · trivial
  · split
    · trivial
    · refine calls_query fun a => ?_
      split
      · trivial
      · intro w
        show ((match provider_for H w.db t.org_id with
          | .error _ => .halt
          | .ok provider => _) : Handler Reply).Calls P
        split
        · trivial
        · next provider hprovider =>
          have hp : ∀ op, P ⟨provider.account H, op⟩ := by
            rw [provider_for_account hprovider]
            exact hp
          have hrefund : ∀ ref amount, (provider.refund H ref amount).Calls P := by
            intro ref amount
            unfold RazorpayAdapter.refund
            split
            · trivial
            · exact request_calls hp
          refine Prog.calls_bind (hrefund _ _) fun result => ?_
          split
          · exact calls_commit trivial
          · exact record_refund_calls

end

/-! ## Executing -/

section
variable {P : Call → Prop} {x : Execution} {s : Session} {row : Orm} {adapter : AgenticAdapter}

theorem answerConsumed_calls {ref : Json} : (answerConsumed x s row ref).Calls P :=
  calls_commit (calls_loadTxn fun _ => trivial)

theorem failClosed_calls {text : String} {answer : Orm → Reply} :
    (failClosed x text answer).Calls P :=
  calls_loadTxn fun _ => calls_commit (calls_loadTxn fun _ => trivial)

theorem handle_raised_calls {raised : Raised} : (handle_raised H x raised).Calls P := by
  unfold handle_raised
  dsimp only
  have hrecord : ∀ {to_state : TxnState} {text : String} {k : Unit → Handler Reply},
      (k ()).Calls P → ((do
        let row ← raised.access x.auth.authorization_id
        Handler.commit (raised.pending ++ [((row.moveOrPass to_state).fail text).write])) >>= k).Calls P :=
    fun hk => Prog.calls_bind (calls_access fun _ => commit_calls) fun _ => hk
  split
  · trivial
  · exact hrecord trivial
  · exact hrecord trivial
  · exact hrecord (calls_loadTxn fun _ => trivial)
  · exact hrecord trivial

theorem confirm_agentic_calls {ref : Json}
    (hp : ∀ op, op.submits = none → P ⟨.agentic x.auth.org_id, op⟩) :
    (confirm_agentic H x s row ref).Calls P := by
  unfold confirm_agentic
  split
  · trivial
  · refine calls_send (hp _ rfl) fun answer => ?_
    split
    · trivial
    · split
      · trivial
      · exact Prog.calls_bind answerConsumed_calls fun _ => trivial
      · split
        · trivial
        · exact calls_audit fun _ => Prog.calls_bind answerConsumed_calls fun _ => trivial

theorem settle_capture_calls {ref reply : Json}
    (hp : ∀ op, op.submits = none → P ⟨.agentic x.auth.org_id, op⟩) :
    (settle_capture H x s row ref reply).Calls P := by
  unfold settle_capture
  split
  · trivial
  · dsimp only
    have hfinish : ∀ (to_state : TxnState) (text : String),
        (finish_capture x s row ref to_state text).Calls P := by
      intro to_state text
      unfold finish_capture
      split
      · trivial
      · exact Prog.calls_bind answerConsumed_calls fun _ => trivial
    split
    · exact confirm_agentic_calls hp
    · split
      · exact hfinish _ _
      · split
        · exact hfinish _ _
        · exact hfinish _ _

/-- Once the debit is authorized nothing more is submitted. -/
theorem capture_agentic_calls {ref : Json}
    (hp : ∀ op, op.submits = none → P ⟨.agentic x.auth.org_id, op⟩) :
    (capture_agentic H x adapter ref).Calls P := by
  refine calls_loadTxn fun row => ?_
  dsimp only
  split
  · trivial
  · split
    · trivial
    · refine calls_audit fun _ => calls_audit fun _ => calls_send (hp _ rfl) fun capture => ?_
      split
      · exact Prog.calls_bind answerConsumed_calls fun _ => trivial
      · exact settle_capture_calls hp

theorem agentic_path_calls (hp : ∀ op, P ⟨.agentic x.auth.org_id, op⟩) :
    (agentic_path H x adapter).Calls P := by
  have hconsume : (consume_agentic_settlement H x adapter).Calls P := by
    refine calls_now fun now => calls_query fun binding => ?_
    split
    · exact Prog.calls_bind failClosed_calls fun _ => trivial
    · refine calls_send (hp _) fun validation => ?_
      split
      · trivial
      · split
        · split
          · exact Prog.calls_bind failClosed_calls fun _ => trivial
          · refine calls_send (hp _) fun authorized => ?_
            split
            · trivial
            · split
              · split
                · trivial
                · exact capture_agentic_calls fun op _ => hp op
              · trivial
        · trivial
  refine Prog.calls_bind hconsume fun result => ?_
  split
  · trivial
  · split
    · exact calls_access fun _ => calls_commit trivial
    · trivial
    · exact calls_access fun _ => calls_commit trivial

theorem submit_order_calls {provider : RazorpayAdapter} {order : Json} :
    (submit_order H x provider order).Calls P := by
  unfold submit_order
  split
  · trivial
  · split
    · trivial
    · refine calls_loadTxn fun row => ?_
      dsimp only
      split
      · trivial
      · exact calls_audit fun _ => calls_audit fun _ => calls_commit (calls_loadTxn fun _ => trivial)

theorem create_order_calls (hp : ∀ op, P ⟨account H x.auth.org_id, op⟩) :
    (create_order H x).Calls P := by
  intro w
  show ((match provider_for H w.db x.auth.org_id with
    | .error e => pure (.error { exc := e })
    | .ok provider => _) : Handler (Except Raised Reply)).Calls P
  split
  · trivial
  · next provider hprovider =>
    have hp : ∀ op, P ⟨provider.account H, op⟩ := by
      rw [provider_for_account hprovider]
      exact hp
    have hcreate : ∀ id amount currency notes,
        (provider.create_payment H id amount currency notes).Calls P := by
      intro id amount currency notes
      unfold RazorpayAdapter.create_payment
      split
      · trivial
      · exact Prog.calls_bind (request_calls hp) fun _ => trivial
    refine Prog.calls_bind (hcreate _ _ _ _) fun order => ?_
    split
    · trivial
    · split
      · trivial
      · exact submit_order_calls
      · refine calls_loadTxn fun row => ?_
        split
        · trivial
        · exact calls_commit trivial

/-- Every call of an execution goes to the executor of the authorization's organization. -/
theorem execute_calls (hp : ∀ op, P ⟨executor H x.auth.org_id, op⟩) : (execute H x).Calls P := by
  unfold execute
  unfold executor autonomous at hp
  split
  · exact handle_raised_calls
  · next agentic hagentic =>
    rw [hagentic] at hp
    split
    · trivial
    · split
      · next hauto => exact agentic_path_calls fun op => by simpa [hauto] using hp op
      · next hauto =>
        split
        · exact failClosed_calls
        · refine Prog.calls_bind (create_order_calls fun op => by simpa [hauto] using hp op)
            fun result => ?_
          split
          · trivial
          · exact handle_raised_calls

end

/-! ## Runs -/

/-- Handler `i` is inside a part and makes the call next. -/
def Calling {α : Type} (c : Pool World Stmt Call Answer Reply) (i : Nat) (p : Handler α)
    (cl : Call) : Prop :=
  ∃ (k : Answer → Handler α) (rest : α → Handler Reply), p.After (.call cl k) ∧
    c.threads[i]? = some (.call cl k >>= rest)

theorem Calling.calls {α : Type} {c : Pool World Stmt Call Answer Reply} {i : Nat} {p : Handler α}
    {cl : Call} {P : Call → Prop} (h : Calling c i p cl) (hp : p.Calls P) : P cl := by
  obtain ⟨k, -, hafter, -⟩ := h
  exact (hp.after hafter).1

/-- Handler `i` reads or refunds the payment of `t` next. -/
def Later.Calling (H : Host) (c : Pool World Stmt Call Answer Reply) (i : Nat)
    (t : ProviderTransaction) (cl : Call) : Later → Prop
  | .reconcile pending => Paari.Calling c i (reconcile_row H pending (Orm.fresh t)) cl
  | .confirm provider => Paari.Calling c i (confirm_capture H provider (Orm.fresh t)) cl
  | .refund pending req => Paari.Calling c i (refund_row H pending t.authorization_id req t) cl

/-- A capture is confirmed with the organization's own account: the delivery was verified
against it, because its order named the transaction from the first lookup on. -/
def Later.OwnAccount (H : Host) (org_id : String) : Later → Prop
  | .confirm provider => provider.account H = account H org_id
  | _ => True

/-- In a run of these requests the authorization of `x` is executed by the call `cl`, and
later a part that works on its transaction makes the call `cl'`. -/
def ExecutedThen (H : Host) (reqs : List Request) (w : World) (x : Execution) (cl : Call)
    (part : Later) (cl' : Call) : Prop :=
  ∃ c c' i j t, Pool.Reach machine Pool.Free (Pool.start w (reqs.map (handler H))) c ∧
    Calling c i (execute H x) cl ∧ cl.op.submits = some x.auth.authorization_id ∧
    Pool.Reach machine Pool.Free c c' ∧ part.Calling H c' j t cl' ∧
    t.authorization_id = x.auth.authorization_id ∧ t.org_id = x.auth.org_id

namespace Sample

/-- The host with an agentic adapter for the default organization. -/
def agenticHost : Host :=
  { host false [] with
    environ := fun name =>
      if name = "PAARI_AGENTIC_PROVIDER" then some "wallet:Adapter" else (host false []).environ name
    import_adapter := fun _ _ => some ⟨true, none⟩ }

/-- The user's mandate for the agent, unsigned. -/
def mandate : UserPaymentMandate where
  mandate_id := "mandate"
  org_id := "default"
  user_id := "user"
  agent_id := "agent"
  max_per_transaction := 1000
  max_daily_amount := 1000
  max_per_hour := none
  max_per_merchant_per_day := none
  max_category_per_day := none
  currency := "INR"
  allowed_merchants := []
  allowed_categories := []
  require_review_above := none
  valid_from := 0
  expires_at := 1000000000000000
  status := .active
  revoked_at := none
  signing_key_id := none
  signature_b64 := none
  user_public_key_pem := none

/-- The instrument the adapter debits under that mandate. -/
def binding : PaymentInstrumentBinding :=
  ⟨"binding", "default", "mandate", "wallet", "ref", "INR", 1000, "active", none⟩

/-- The authorization under that mandate. -/
def mandated : BoundedAuthorization := { authorization 100 with mandate_id := some "mandate" }

/-- A database with that authorization, and the two requests. -/
def mandatedWorld : World :=
  world { db [mandated] [txn .AUTHORIZED none none none] with
    mandates := [mandate], bindings := [binding] }

/-- A consumption of it, and a reconciliation by hand. -/
def consumeAndReconcile : List Request := [.consume ctx "auth" "agent", .reconcile ctx "auth" "agent"]

def custodyStart (H : Host) : Pool World Stmt Call Answer Reply :=
  Pool.start mandatedWorld (consumeAndReconcile.map (handler H))

/-- Every answer the consumption gets, in one: the mandate is valid, the order and the
payment exist. -/
def anything : Answer :=
  .ok (.dict [("valid", .bool true), ("id", .str "order"), ("provider_payment_ref", .str "pay"),
    ("receipt", .str "auth"), ("amount", .int 100), ("currency", .str "INR")])

/-- The execution that consumption arrives at. -/
def execution : Execution := ⟨mandated, "agent", some "parent", []⟩

/-- The pool when the consumption makes its payment-creating call, after `n` steps. -/
def custodyPaying (H : Host) (n : Nat) : Pool World Stmt Call Answer Reply :=
  (custodyStart H).run machine (List.replicate n (.run 0 anything))

/-- And when, that request done, the reconciliation reads the payment. -/
def custodyReading (H : Host) (n m : Nat) : Pool World Stmt Call Answer Reply :=
  ((custodyPaying H n).run machine (List.replicate 8 (.run 0 anything))).run machine
    (List.replicate m (.run 1 anything))

/-- The row after an order was submitted. -/
def orderedRow : ProviderTransaction :=
  { txn .PROVIDER_SUBMITTED (some "order") none none with
    attempts := 1
    provider_key_id_prefix := some "key"
    provider_api_base := some "https://api.razorpay.com/v1" }

/-- The row after the adapter took the payment and said nothing of its capture. -/
def debitedRow : ProviderTransaction :=
  { txn .PROVIDER_UNKNOWN none (some "pay") none with
    attempts := 1
    last_error := some "Provider capture outcome is unknown: x" }

/-- What the reconciliation finds of the authorization. -/
def spentWorld : World := world (db [{ mandated with usage_count := 1 }] [])

theorem executedThen_of {H : Host} {n m : Nat} {t : ProviderTransaction} {cl cl' : Call}
    (hexec : Calling (custodyPaying H n) 0 (execute H execution) cl)
    (hsubmits : cl.op.submits = some "auth")
    (hlater : (Later.reconcile []).Calling H (custodyReading H n m) 1 t cl')
    (hrow : t.authorization_id = "auth" ∧ t.org_id = "default") :
    ExecutedThen H consumeAndReconcile mandatedWorld execution cl (.reconcile []) cl' :=
  ⟨_, _, 0, 1, _, Pool.reach_run _ _ _ _ .start, hexec, hsubmits,
    Pool.reach_run _ _ _ _ (Pool.reach_run _ _ _ _ .start), hlater, hrow.1, hrow.2⟩

/-- What `manual_reconcile` does with the result. -/
def afterReconcile (result : Except Raised Reconciled) : Handler Reply :=
  match result with
  | .ok r => return .reconciled r.status r.state
  | .error _ => .halt

end Sample

end Paari
