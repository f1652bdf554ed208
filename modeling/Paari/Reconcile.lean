import Paari.Settlement

/-!
# Reconciliation and capture confirmation

The two reads that may corroborate a capture: `reconcile_one`, run by hand or by
the worker over every non-terminal transaction, and `confirm_capture`, run by the
webhook handler right after a `payment.captured` event was applied.

`reconcile_one` may return with the row changed and not committed; the worker
commits that with its own bookkeeping, the endpoint drops it with its session.
-/

namespace Paari

/-- The payment record both readers look for: by payment id, else the last attempt
on the order, else nothing. Raising is the caller's `except Exception`. -/
def read_payment (H : Host) (provider : RazorpayAdapter) (t : ProviderTransaction) :
    Handler Answer := do
  if present t.razorpay_payment_id then
    provider.get_payment H (t.razorpay_payment_id.getD "")
  else if present t.razorpay_order_id then do
    let attempts ← provider.fetch_payments H (t.razorpay_order_id.getD "")
    return attempts.bind lastOrNone
  else return .ok .null

/-- `_audit`: an event on the transaction's trace. -/
def audit_txn (H : Host) (s : Session) (t : ProviderTransaction) (kind : String)
    (detail : List (String × Json)) : Handler Session := do
  let parent_id ← Handler.query fun db => audit_parent db t.agent_id
  let trace ← Handler.query fun db =>
    ((db.authorizations.find? fun a => a.authorization_id == t.authorization_id).map
      BoundedAuthorization.transaction_id).getD t.authorization_id
  record_audit H s {
    transaction_id := trace, agent_id := t.agent_id, parent_id := parent_id, kind := kind
    detail := detail, org_id := some t.org_id }

theorem audit_txn_reads (H : Host) (s : Session) (t : ProviderTransaction) (kind : String)
    (detail : List (String × Json)) :
    (audit_txn H s t kind detail).Reads fun s' =>
      ∃ e, e.kind = kind ∧ s' = s ++ [.insertAudit e] :=
  Handler.reads_query fun _ => Handler.reads_query fun _ => ⟨rfl, fun _ => ⟨_, rfl, rfl⟩⟩

/-- `payment.get("amount") is not None and int(payment.get("amount")) != authorized` -/
def amountMismatch (H : Host) (auth : BoundedAuthorization) (amount : Json) :
    Except PyError Bool := do
  if amount.isNull then return false
  return (← pyInt H.toText amount) ≠ auth.amount_minor_units

/-- `payment.get("currency") and str(payment.get("currency")).upper() != authorized` -/
def currencyMismatch (H : Host) (auth : BoundedAuthorization) (currency : Json) : Bool :=
  currency.truthy && pyUpper H.toText currency != H.upper auth.currency

/-- The fields of a payment record, once it is known to be an object. -/
structure PaymentFields where
  status : String
  error_code : Json
  id : Json
  amount : Json
  currency : Json

/-- `payment.get(…)` on each field; raises when the record is not an object. -/
def paymentFields (H : Host) (payment : Json) : Except PyError PaymentFields := do
  let status ← payment.getD "status" (.str "")
  let error_code ← payment.get "error_code"
  let id ← payment.get "id"
  let amount ← payment.get "amount"
  let currency ← payment.get "currency"
  return ⟨pyLower H.toText status, error_code, id, amount, currency⟩

/-! ## Confirming a capture -/

/-- Commit the row and answer with the state it has then. -/
def commitState (pending : Session) (row : Orm) : Handler TxnState := do
  Handler.commit (pending ++ [row.write])
  let row ← loadTxn row.cur.authorization_id
  return row.cur.state

/-- A value mismatch: noted, audited, state unchanged. -/
def rejectConfirmation (H : Host) (row : Orm) (text : String) (detail : List (String × Json)) :
    Handler TxnState := do
  let row := row.fail text
  let s ← audit_txn H [] row.cur "reconcile_value_mismatch"
    (detail ++ [("stage", .str "capture_confirmation")])
  commitState s row

/-- The provider still says `captured`: `PAID`, if the values agree. -/
def confirmPaid (H : Host) (row : Orm) (auth : BoundedAuthorization) (p : PaymentFields) :
    Handler TxnState := do
  match amountMismatch H auth p.amount with
  | .error _ => .halt
  | .ok true =>
    rejectConfirmation H row "confirmation amount mismatch"
      [("provider_amount", p.amount), ("authorized_amount", .int auth.amount_minor_units)]
  | .ok false => do
  if currencyMismatch H auth p.currency then
    rejectConfirmation H row "confirmation currency mismatch"
      [("provider_currency", p.currency), ("authorized_currency", .str auth.currency)]
  else
  let old := row.cur.state
  match row.move .PAID with
  | .error _ => return row.cur.state
  | .ok row =>
    match bindText (p.id.orElse (jsonOpt row.cur.razorpay_payment_id)) with
    | none => .halt
    | some payment_id => do
    let row := row.set fun t => { t with razorpay_payment_id := payment_id }
    let s ← audit_txn H [] row.cur "settlement_confirmed" [
      ("from_state", .str old.word), ("to_state", .str "PAID"), ("payment_id", p.id),
      ("amount_minor_units", .int auth.amount_minor_units), ("currency", .str auth.currency),
      ("provider_environment", .str row.cur.provider_environment)]
    commitState s row

/-- The provider denies the capture it announced. -/
def confirmFailed (H : Host) (row : Orm) (p : PaymentFields) : Handler TxnState := do
  let old := row.cur.state
  match row.move .PROVIDER_UNKNOWN with
  | .error _ => return row.cur.state
  | .ok row => do
  let row := row.fail ("provider reports failed after capture event: " ++
    pyStr H.toText p.error_code)
  let s ← audit_txn H [] row.cur "settlement_not_confirmed" [
    ("from_state", .str old.word), ("to_state", .str "PROVIDER_UNKNOWN"), ("payment_id", p.id),
    ("provider_status", .str p.status),
    ("provider_environment", .str row.cur.provider_environment)]
  commitState s row

/-- `confirm_capture`: the state afterwards. -/
def confirm_capture (H : Host) (provider : RazorpayAdapter) (row : Orm) : Handler TxnState := do
  let auth ← Handler.query fun db =>
    db.authorizations.find? fun a => a.authorization_id == row.cur.authorization_id
  match auth with
  | none => return row.cur.state
  | some auth => do
  let payment ← read_payment H provider row.cur
  match payment with
  | .error e =>
    commitState []
      (row.fail ("capture confirmation unavailable: " ++ slice 500 (e.text H.toText)))
  | .ok payment => do
    if !payment.truthy then return row.cur.state
    match paymentFields H payment with
    | .error _ => .halt
    | .ok p =>
      if p.status = "captured" then confirmPaid H row auth p
      else if p.status = "failed" then confirmFailed H row p
      else return row.cur.state

/-! ## Reconciling one transaction -/

/-- What `reconcile_one` returns, and how it leaves its session. -/
structure Reconciled where
  status : String
  state : Option TxnState
  row : Option Orm := none
  pending : Session := []

/-- Commit and return. -/
def reconcileCommit (pending : Session) (row : Orm) (status : String) :
    Handler (Except Raised Reconciled) := do
  let state ← commitState pending row
  return .ok { status := status, state := some state }

/-- Return without a commit. -/
def reconcileReturn (pending : Session) (row : Orm) (status : String) :
    Except Raised Reconciled :=
  .ok ⟨status, some row.cur.state, some row, pending⟩

/-- A settled exit: transition, audit, commit; an illegal one is left alone. -/
def reconcileExit (H : Host) (pending : Session) (row : Orm) (to_state : TxnState)
    (ref : String × Json) : Handler (Except Raised Reconciled) := do
  let old := row.cur.state
  match row.move to_state with
  | .error _ => return reconcileReturn pending row "unreconciled"
  | .ok row => do
  let s ← audit_txn H pending row.cur "reconciled" [
    ("from_state", .str old.word), ("to_state", .str to_state.word), ref,
    ("provider_environment", .str row.cur.provider_environment)]
  reconcileCommit s row "reconciled"

/-- `_PROVIDER_STATUS_TO_STATE` -/
def PROVIDER_STATUS_TO_STATE (status : String) : Option TxnState :=
  if status = "captured" then some .PAID
  else if status = "failed" then some .FAILED
  else if status = "authorized" then some .PROVIDER_AUTHORIZED
  else none

/-- The provider's values are not the authorization's: noted, state unchanged. -/
def rejectPayment (H : Host) (pending : Session) (row : Orm) (auth : BoundedAuthorization)
    (p : PaymentFields) (text : String) : Handler (Except Raised Reconciled) := do
  let row := row.fail text
  let s ← audit_txn H pending row.cur "reconcile_value_mismatch" [
    ("provider_amount", p.amount), ("authorized_amount", .int auth.amount_minor_units),
    ("provider_currency", p.currency), ("authorized_currency", .str auth.currency)]
  reconcileCommit s row "unreconciled"

/-- The last lines of `reconcile_one`: adopt the payment id and commit. -/
def finishAdoption (pending : Session) (row : Orm) (target : TxnState) (p : PaymentFields) :
    Handler (Except Raised Reconciled) :=
  if target = .PAID ∧ p.id.truthy then
    match bindText p.id with
    | none => .halt
    | some payment_id =>
      reconcileCommit pending (row.set fun t => { t with razorpay_payment_id := payment_id })
        "reconciled"
  else reconcileCommit pending row "reconciled"

/-- Adopt the provider's status, if its values are exactly the authorization's. -/
def adopt_payment (H : Host) (pending : Session) (row : Orm) (auth : BoundedAuthorization)
    (p : PaymentFields) : Handler (Except Raised Reconciled) := do
  match PROVIDER_STATUS_TO_STATE p.status with
  | none => return reconcileReturn pending row "unreconciled"
  | some target =>
    match amountMismatch H auth p.amount with
    | .error e => return .error ⟨.python e, some row, pending⟩
    | .ok true => rejectPayment H pending row auth p "provider payment amount mismatch"
    | .ok false =>
      if currencyMismatch H auth p.currency then
        rejectPayment H pending row auth p "provider payment currency mismatch"
      else if target = row.cur.state then finishAdoption pending row target p
      else
        match row.move target with
        | .error _ => return reconcileReturn pending row "unreconciled"
        | .ok moved => do
        let llm ← Handler.query fun db => causal_labels db row.cur.intent_id
        let s ← audit_txn H pending moved.cur "reconciled" ([
          ("from_state", .str row.cur.state.word), ("to_state", .str target.word),
          ("payment_id", p.id), ("amount_minor_units", .int auth.amount_minor_units),
          ("currency", .str auth.currency),
          ("provider_environment", .str row.cur.provider_environment)] ++ llm)
        finishAdoption s moved target p

/-- The error codes that mean the bank refused. -/
def DECLINE_CODES : List String :=
  ["card_declined", "insufficient_funds", "bank_declined", "declined"]

/-- `reconcile_one` once a payment record was read and the order did not end it. -/
def adopt_status (H : Host) (pending : Session) (row : Orm) (auth : BoundedAuthorization)
    (payment : Json) : Handler (Except Raised Reconciled) := do
  match paymentFields H payment with
  | .error e => return .error ⟨.python e, some row, pending⟩
  | .ok p =>
    -- `payment.get("error_code", "")`: absent is the empty string, not `None`
    if p.status = "failed" ∧ ¬ p.error_code.isNull ∧
        pyLower H.toText p.error_code ∈ DECLINE_CODES then
      reconcileExit H pending row .DECLINED ("payment_id", p.id)
    else adopt_payment H pending row auth p

/-- The order's own status, where the transaction has an order. -/
def order_status (H : Host) (order : Json) : Except PyError String :=
  (order.getD "status" (.str "")).map (pyLower H.toText)

/-- `reconcile_one` from the payment record on. -/
def reconcile_payment (H : Host) (pending : Session) (provider : RazorpayAdapter) (row : Orm)
    (auth : BoundedAuthorization) (payment : Json) : Handler (Except Raised Reconciled) := do
  if !present row.cur.razorpay_order_id then adopt_status H pending row auth payment
  else do
    let order ← provider.fetch_order_by_receipt H auth.authorization_id
    -- `except Exception: order = None`
    let order := order.toOption.getD .null
    if !order.truthy then adopt_status H pending row auth payment
    else
      match order_status H order, order.get "id" with
      | .ok status, .ok id =>
        if status = "cancelled" then reconcileExit H pending row .CANCELLED ("order_id", id)
        else if status = "expired" then reconcileExit H pending row .EXPIRED ("order_id", id)
        else adopt_status H pending row auth payment
      | .error e, _ => return .error ⟨.python e, some row, pending⟩
      | _, .error e => return .error ⟨.python e, some row, pending⟩

/-- `reconcile_one` from its own provider reads on. -/
def reconcile_read (H : Host) (pending : Session) (provider : RazorpayAdapter) (row : Orm)
    (auth : BoundedAuthorization) : Handler (Except Raised Reconciled) := do
  let payment ← read_payment H provider row.cur
  match payment with
  | .error e => reconcileCommit pending (row.fail (slice 2000 (e.text H.toText))) "unreconciled"
  | .ok payment =>
    if !payment.truthy then reconcileCommit pending row "unreconciled"
    else reconcile_payment H pending provider row auth payment

/-- `reconcile_one` on a loaded row. -/
def reconcile_row (H : Host) (pending : Session) (row : Orm) :
    Handler (Except Raised Reconciled) := do
  if row.cur.state ∈ TERMINAL_STATES then return reconcileReturn pending row "terminal"
  let auth ← Handler.query fun db => db.authorizations.find? fun a =>
    a.authorization_id == row.cur.authorization_id && a.org_id == row.cur.org_id
  match auth with
  | none => return reconcileReturn pending row "unreconciled"
  | some auth => do
  let provider ← Handler.query fun db => provider_for H db row.cur.org_id
  match provider with
  | .error e => reconcileCommit pending (row.fail (slice 2000 (e.text H.toText))) "unreconciled"
  | .ok provider =>
    if row.cur.state = .PROVIDER_UNKNOWN ∧ !present row.cur.razorpay_order_id then do
      let found ← provider.fetch_order_by_receipt H row.cur.authorization_id
      match found with
      | .error e => return .error ⟨e, some row, pending⟩
      | .ok found =>
        if !found.truthy then reconcile_read H pending provider row auth
        else
          match found.get "id" with
          | .error e => return .error ⟨.python e, some row, pending⟩
          | .ok id =>
            if !id.truthy then reconcile_read H pending provider row auth
            else
              match bindText id with
              | none => .halt
              | some order_id =>
                reconcile_read H pending provider
                  (row.set fun t => { t with razorpay_order_id := order_id }) auth
    else reconcile_read H pending provider row auth

/-- `reconcile_one` -/
def reconcile_one (H : Host) (pending : Session) (authorization_id : String) :
    Handler (Except Raised Reconciled) := do
  let t ← Handler.query fun db =>
    db.txns.find? fun t => t.authorization_id == authorization_id
  match t with
  | none => return .ok { status := "not_found", state := none, pending := pending }
  | some t => reconcile_row H pending (Orm.fresh t)

/-- `manual_reconcile` -/
def manual_reconcile (H : Host) (ctx : RequestContext) (authorization_id session_token : String) :
    Handler Reply := do
  let auth ← Handler.query fun db =>
    db.authorizations.find? fun a => a.authorization_id == authorization_id
  match auth with
  | none => return http 404 "Authorization not found"
  | some auth =>
  Handler.attempt (pure (resolve_session_token H session_token ctx.authorization)) fun token =>
  Handler.attempt (authenticate H ctx token (some auth.agent_id)) fun ⟨_, _, pending⟩ => do
  let result ← reconcile_one H pending authorization_id
  match result with
  | .ok r => return .reconciled r.status r.state
  | .error _ => .halt

/-! ## The worker -/

/-- Count one more failed attempt; from `dead_letter_after` on, park the row. -/
def dead_letter (H : Host) (dead_letter_after : Int) (pending : Session) (row : Orm) :
    Handler Unit := do
  let row := row.set fun t => { t with attempts := t.attempts + 1 }
  if row.cur.attempts < dead_letter_after then
    Handler.commit (pending ++ [row.write])
  else
    let text := "dead-letter: exceeded max reconcile attempts"
    match row.move .PROVIDER_UNKNOWN with
    | .error _ => Handler.commit (pending ++ [(row.fail text).write])
    | .ok moved => do
      let s ← audit_txn H pending moved.cur "reconcile_dead_letter" [
        ("from_state", .str row.cur.state.word), ("to_state", .str "PROVIDER_UNKNOWN"),
        ("attempts", .int row.cur.attempts), ("reason", .str text)]
      Handler.commit (s ++ [(moved.fail text).write])

/-- The body of the worker's loop, for one loaded row. -/
def batch_row (H : Host) (dead_letter_after : Int) (row : Orm) : Handler Unit := do
  let result ← reconcile_row H [] row
  match result with
  | .error raised =>
    let after := raised.row.getD row
    Handler.commit (raised.pending ++ [(after.fail (slice 2000 (raised.exc.text H.toText))).write])
  | .ok r =>
    if r.status = "reconciled" then return ()
    match r.row with
    | some after => dead_letter H dead_letter_after r.pending after
    | none => do
      let after ← loadTxn row.cur.authorization_id
      dead_letter H dead_letter_after r.pending after

/-- The rest of the batch: every commit expired the rows, so each is re-read when
its turn comes. -/
def batch_rest (H : Host) (dead_letter_after : Int) : List ProviderTransaction → Handler Unit
  | [] => return ()
  | t :: rest => do
    let row ← loadTxn t.authorization_id
    batch_row H dead_letter_after row
    batch_rest H dead_letter_after rest

/-- `ReconciliationWorker._run_batch` -/
def run_batch (H : Host) (dead_letter_after : Int) : Handler Reply := do
  let txns ← Handler.query fun db => db.txns.filter fun t => decide (t.state ∉ TERMINAL_STATES)
  match txns with
  | [] => return .done
  | t :: rest => do
    batch_row H dead_letter_after (Orm.fresh t)
    batch_rest H dead_letter_after rest
    return .done

end Paari
