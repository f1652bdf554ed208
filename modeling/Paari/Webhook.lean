import Paari.Reconcile

/-!
# Provider events and refunds

`razorpay_webhook` applies a signed provider event to the transaction of its
order: `payment.authorized`, `payment.captured` and `payment.failed` move the
state, no event reaches `PAID`, and a capture is confirmed by `confirm_capture`
before it counts. `refund_authorization` gives the money back.
-/

namespace Paari

/-! ## Webhook deliveries -/

/-- `x.get(k) or {}` -/
def getDict (x : Json) (k : String) : Except PyError Json := do
  return (← x.get k).orEmpty

/-- What the handler reads out of the event. -/
structure WebhookEvent where
  event_type : String
  order_id : Json
  amount : Json
  currency : Json
  payment_id : Json
  id : Json
  /-- The merchant account; only read once the event is authenticated. -/
  account_id : Except PyError Json

/-- The chains of `.get` on the event; raises where one of them meets a value that
is not an object. -/
def readEvent (T : Text) (event : Json) : Except PyError WebhookEvent := do
  let payload ← getDict event "payload"
  let payment ← getDict (← getDict payload "payment") "entity"
  let order_id ← payment.get "order_id"
  let event_type := (← event.get "event").orElse (.str "")
  let account_id := do
    let account ← (← getDict payload "account").get "id"
    return account.orElse (← event.get "account_id")
  let id ← event.get "id"
  let amount ← payment.get "amount"
  let currency ← payment.get "currency"
  let payment_id ← payment.get "id"
  return ⟨pyStr T event_type, order_id, amount, currency, payment_id, id, account_id⟩

/-- The provider's values are not exactly the authorization's. -/
def valueMismatch (H : Host) (auth : BoundedAuthorization) (e : WebhookEvent) :
    Except PyError Bool := do
  if e.amount.isNull || e.currency.isNull then return true
  if (← pyInt H.toText e.amount) ≠ auth.amount_minor_units then return true
  return pyUpper H.toText e.currency ≠ H.upper auth.currency

/-- Where an event moves the transaction. -/
def eventTarget (event_type : String) : Option TxnState :=
  if event_type = "payment.authorized" then some .PROVIDER_AUTHORIZED
  else if event_type = "payment.captured" then some .CAPTURED
  else if event_type = "payment.failed" then some .FAILED
  else none

/-- The event names an API key of another account than the transaction's
organization uses: the key that was expected. `none` when reading it raises. -/
def orgMismatch (H : Host) (db : DB) (org_id : String) (account_id : Except PyError Json) :
    Option (Option (String × String)) := do
  let account ← account_id.toOption
  if !account.truthy then some none
  else
    match account with
    | .str actual =>
      if !RazorpayAdapter.startsWith actual "rzp_" then some none
      else
        match provider_for H db org_id with
        | .error _ => some none
        | .ok p =>
          if p.key_id H ≠ "" ∧ actual ≠ p.key_id H then some (some (p.key_id H, actual))
          else some none
    | _ => none

/-- An event that is rejected, with its reason audited. -/
def rejectEvent (H : Host) (auth : BoundedAuthorization) (kind org_id : String)
    (detail : List (String × Json)) (reply : Reply) : Handler Reply := do
  let s ← record_audit H [] {
    transaction_id := auth.transaction_id, agent_id := auth.agent_id, parent_id := none
    kind := kind, detail := detail, org_id := some org_id }
  Handler.commit s
  return reply

/-- Apply an event whose values agree. -/
def applyEvent (H : Host) (provider : RazorpayAdapter) (row : Orm) (auth : BoundedAuthorization)
    (e : WebhookEvent) (event_id : String) (target : TxnState) : Handler Reply := do
  let old_state := row.cur.state
  match row.move target with
  | .error _ => return .webhook "ignored" none
  | .ok moved =>
    match bindText (if target = .CAPTURED then e.payment_id
        else jsonOpt moved.cur.razorpay_payment_id) with
    | none => .halt
    | some payment_id => do
    let row := moved.set fun t =>
      { t with webhook_event_id := some event_id, razorpay_payment_id := payment_id }
    let parent_id ← Handler.query fun db => audit_parent db row.cur.agent_id
    let llm ← Handler.query fun db => causal_labels db row.cur.intent_id
    let s ← record_audit H [] {
      transaction_id := auth.transaction_id, agent_id := row.cur.agent_id
      parent_id := parent_id, kind := "webhook_applied", org_id := some row.cur.org_id
      detail := [("event_type", .str e.event_type), ("event_id", .str event_id),
        ("from_state", .str old_state.word), ("to_state", .str target.word),
        ("order_id", e.order_id), ("payment_id", e.payment_id),
        ("amount_minor_units", .int auth.amount_minor_units), ("currency", .str auth.currency),
        ("provider_environment", .str row.cur.provider_environment)] ++ llm }
    Handler.commit (s ++ [row.write])
    let row ← loadTxn row.cur.authorization_id
    if target = .CAPTURED then
      -- Corroborate before calling it settled.
      let state ← confirm_capture H provider row
      return .webhook "applied" (some state)
    return .webhook "applied" (some row.cur.state)

/-- The checks between the authenticated event and its application. -/
def checkEvent (H : Host) (provider : RazorpayAdapter) (raw : String) (row : Orm)
    (auth : BoundedAuthorization) (e : WebhookEvent) : Handler Reply := do
  let mismatch ← Handler.query fun db => orgMismatch H db row.cur.org_id e.account_id
  match mismatch with
  | none => .halt
  | some (some (expected, actual)) =>
    rejectEvent H auth "webhook_rejected_org_mismatch" row.cur.org_id
      [("from_state", .str row.cur.state.word), ("to_state", .str row.cur.state.word),
        ("expected_key_id", .str expected), ("actual_account_id", .str actual),
        ("order_id", e.order_id), ("payment_id", e.payment_id), ("event_type", .str e.event_type)]
      (paariHttp 403 .WEBHOOK_ORG_MISMATCH
        "Webhook event org does not match authorization owner")
  | some none =>
    match bindText (e.id.orElse (.str (H.sha256_hex raw))) with
    | some (some event_id) => do
      let seen ← Handler.query fun db =>
        db.txns.any fun t => t.webhook_event_id == some event_id
      if row.cur.webhook_event_id = some event_id || seen then
        return .webhook "duplicate_ignored" none
      match eventTarget e.event_type with
      | none => return .webhook "ignored" none
      | some target =>
        match valueMismatch H auth e with
        | .error _ => .halt
        | .ok true =>
          rejectEvent H auth "webhook_rejected_value_mismatch" auth.org_id
            [("event_type", .str e.event_type), ("order_id", e.order_id),
              ("provider_amount", e.amount), ("provider_currency", e.currency),
              ("authorized_amount", .int auth.amount_minor_units),
              ("authorized_currency", .str auth.currency)]
            (.webhook "rejected_value_mismatch" none)
        | .ok false => applyEvent H provider row auth e event_id target
    | _ => .halt

/-- `db.query(ProviderTransaction).filter_by(razorpay_order_id=…).first()` -/
def txnByOrder (db : DB) (order_id : String) : Option ProviderTransaction :=
  db.txns.find? fun t => t.razorpay_order_id == some order_id

/-- The second lookup of the row: a row the session already holds keeps the
columns it was loaded with. -/
def identity (held : Option ProviderTransaction) (found : ProviderTransaction) :
    ProviderTransaction :=
  match held with
  | some t => if t.authorization_id = found.authorization_id then t else found
  | none => found

/-- `razorpay_webhook` -/
def razorpay_webhook (H : Host) (raw x_razorpay_signature : String) : Handler Reply := do
  if raw = "" then return http 400 "Empty webhook body"
  match H.json_loads raw with
  | none => return http 400 "Invalid webhook JSON"
  | some event =>
    match readEvent H.toText event with
    | .error _ => .halt
    | .ok e =>
      match bindText (if e.order_id.truthy then e.order_id else .null) with
      | none => .halt
      | some order_id => do
      let held ← Handler.query fun db => order_id.bind (txnByOrder db)
      let org_id := (held.map ProviderTransaction.org_id).getD "default"
      let provider ← Handler.query fun db => provider_for H db org_id
      match provider with
      | .error _ => return http 500 "Webhook secret is not configured"
      | .ok provider =>
        if !provider.verify_webhook H raw x_razorpay_signature then
          return http 401 "Invalid webhook signature"
        match order_id with
        | none => return .webhook "ignored" none
        | some order_id => do
        let found ← Handler.query fun db => txnByOrder db order_id
        match found with
        | none => return .webhook "ignored" none
        | some found => do
        let row := Orm.fresh (identity held found)
        let auth ← Handler.query fun db => db.authorizations.find? fun a =>
          a.authorization_id == row.cur.authorization_id
        match auth with
        | none => return .webhook "ignored" none
        | some auth => checkEvent H provider raw row auth e

/-! ## Refunds -/

/-- The provider accepted the refund: record it. -/
def record_refund (H : Host) (pending : Session) (row : Orm) (auth : Option BoundedAuthorization)
    (amount : Int) (result : Json) : Handler Reply := do
  let old_state := row.cur.state
  match row.move .REFUNDED with
  | .error _ =>
    return http 409 ("Cannot transition from " ++ row.cur.state.word ++ " to REFUNDED")
  | .ok row => do
  let parent_id ← Handler.query fun db => audit_parent db row.cur.agent_id
  let llm ← Handler.query fun db => causal_labels db row.cur.intent_id
  let s ← record_audit H pending {
    transaction_id := (auth.map BoundedAuthorization.transaction_id).getD row.cur.authorization_id
    agent_id := row.cur.agent_id, parent_id := parent_id, kind := "refund_issued"
    org_id := some row.cur.org_id
    detail := [("authorization_id", .str row.cur.authorization_id),
      ("payment_id", jsonOpt row.cur.razorpay_payment_id), ("amount_minor_units", .int amount),
      ("from_state", .str old_state.word), ("to_state", .str "REFUNDED"),
      ("provider_environment", .str row.cur.provider_environment)] ++ llm }
  Handler.commit (s ++ [row.write])
  let row ← loadTxn row.cur.authorization_id
  match result.get "id" with
  | .ok id => return .refunded row.cur.state id
  | .error _ => .halt

/-- The amount to refund: the request's, else the whole authorization. -/
def refundAmount (req : RefundRequest) (auth : Option BoundedAuthorization) : Int :=
  req.amount_minor_units.getD ((auth.map BoundedAuthorization.amount_minor_units).getD 0)

/-- `refund_authorization` -/
def refund_authorization (H : Host) (ctx : RequestContext) (authorization_id : String)
    (req : RefundRequest) : Handler Reply := do
  let txn ← Handler.query fun db =>
    db.txns.find? fun t => t.authorization_id == authorization_id
  match txn with
  | none => return http 404 "Authorization not found"
  | some txn =>
  Handler.attempt (pure (resolve_session_token H req.session_token ctx.authorization)) fun token =>
  Handler.attempt (authenticate H ctx token (some txn.agent_id)) fun ⟨_, _, pending⟩ => do
  let row := Orm.fresh txn
  if row.cur.state ≠ .PAID then
    return http 409 ("Cannot refund a payment in state " ++ row.cur.state.word)
  if !present row.cur.razorpay_payment_id then
    return http 409 "No provider payment id recorded for this transaction"
  let auth ← Handler.query fun db =>
    db.authorizations.find? fun a => a.authorization_id == authorization_id
  let amount := refundAmount req auth
  if amount ≤ 0 then return http 400 "Refund amount must be positive"
  let provider ← Handler.query fun db => provider_for H db row.cur.org_id
  match provider with
  | .error _ => .halt
  | .ok provider => do
  let result ← provider.refund H (row.cur.razorpay_payment_id.getD "") amount
  match result with
  | .error exc => do
    Handler.commit (pending ++ [(row.fail (slice 2000 (exc.text H.toText))).write])
    return http 502 ("Provider refund failed: " ++ exc.text H.toText)
  | .ok result => record_refund H pending row auth amount result

end Paari
