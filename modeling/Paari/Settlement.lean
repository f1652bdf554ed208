import Paari.Intents

/-!
# Consuming an authorization

`consume_authorization` revalidates everything the authorization rests on,
reserves its single use, commits, and only then talks to a provider: the agentic
adapter of the organization if it can settle by itself, the order-based Razorpay
adapter otherwise.

The `ProviderTransaction` is an ORM object. Between a commit and the next access
to one of its columns it is expired, so it is re-read at that access, which in the
order-based path comes after the provider call. `Orm` keeps the row as loaded next
to the row as changed since; a flush in mid-transaction makes the changed row the
loaded one and leaves the `UPDATE` among the pending writes.
-/

namespace Paari

/-! ## The row as an ORM object -/

/-- A transaction row in a session: as loaded or last flushed, and as it is now. -/
structure Orm where
  loaded : ProviderTransaction
  cur : ProviderTransaction
deriving DecidableEq

namespace Orm

/-- Freshly loaded. -/
def fresh (t : ProviderTransaction) : Orm := ⟨t, t⟩

/-- The `UPDATE` a flush issues. -/
def write (r : Orm) : Write := .updateTxn r.loaded r.cur

/-- After that flush. -/
def flushed (r : Orm) : Orm := ⟨r.cur, r.cur⟩

/-- Assign columns. -/
def set (r : Orm) (f : ProviderTransaction → ProviderTransaction) : Orm := ⟨r.loaded, f r.cur⟩

/-- `txn.last_error = text` -/
def fail (r : Orm) (text : String) : Orm := r.set fun t => { t with last_error := some text }

/-- `transition_txn(txn, to_state)` -/
def move (r : Orm) (to_state : TxnState) : Except Exc Orm :=
  match transition_txn r.cur to_state with
  | .ok cur => .ok ⟨r.loaded, cur⟩
  | .error e => .error e

/-- `try: transition_txn(txn, to_state) except IllegalTransitionError: pass` -/
def moveOrPass (r : Orm) (to_state : TxnState) : Orm := r.set (transition_or_pass · to_state)

end Orm

/-- Access an expired row. -/
def loadTxn (authorization_id : String) : Handler Orm := do
  let t ← Handler.query fun db =>
    db.txns.find? fun t => t.authorization_id == authorization_id
  match t with
  | some t => return Orm.fresh t
  | none => .halt

/-- What the access goes on to, by the row that was found. -/
def loadedTxn : Option ProviderTransaction → Handler Orm
  | some t => return Orm.fresh t
  | none => .halt

/-- The access follows a protocol if the phase it leads to goes on with the row it found. -/
theorem conforms_loadTxn {β Q : Type} {π : Atomic.Protocol World Stmt Call Answer Q}
    {Post : β → Q → Prop} {q : Q} {id : String} {k : Orm → Handler β}
    (h : ∀ w : World, ∃ q', π.stmt q .select w q' ∧
      ∀ t ∈ w.db.txns, t.authorization_id = id → (k (Orm.fresh t)).Conforms π Post q') :
    (loadTxn id >>= k).Conforms π Post q := by
  intro w
  obtain ⟨q', hs, hk⟩ := h w
  refine ⟨q', hs, ?_⟩
  show (loadedTxn (w.db.txns.find? fun t => t.authorization_id == id) >>= k).Conforms π Post q'
  cases ht : w.db.txns.find? fun t => t.authorization_id == id with
  | some t => exact hk t (List.mem_of_find?_eq_some ht) (by simpa using List.find?_some ht)
  | none => trivial

/-- What a `try` block leaves behind when it raises: the row, if it was accessed
since the last commit, and the flushed work. -/
structure Raised where
  exc : Exc
  row : Option Orm := none
  pending : Session := []

/-- The row in an `except` block. -/
def Raised.access (x : Raised) (authorization_id : String) : Handler Orm :=
  match x.row with
  | some r => return r
  | none => loadTxn authorization_id

/-- A JSON value as a nullable text column takes it; the driver refuses the rest. -/
def bindText : Json → Option (Option String)
  | .str s => some (some s)
  | .null => some none
  | _ => none

/-! ## Revalidation -/

/-- `order_by(issued_at.desc()).first()` over the agent's unrevoked credentials. -/
def currentCredential (db : DB) (agent_pk : Nat) : Option Credential :=
  (db.credentials.filter fun c => c.agent_pk == agent_pk && !c.revoked).foldl
    (fun best c =>
      match best with
      | none => some c
      | some b => if b.issued_at < c.issued_at then some c else some b) none

/-- The mandate checks of `_revalidate_execution` up to the merchant allowlist:
the first refusal. `none` when the signature check raises. -/
def mandateRefusal (H : Host) (auth : BoundedAuthorization) (m : UserPaymentMandate)
    (now : Instant) (policy : Host.MandatePolicy) : Option (Option Reply) := do
  if m.expires_at < now ∨ now < m.valid_from then
    return some (http 403 "User payment mandate is outside its validity window")
  else
    let (sig_ok, sig_reasons) ← check_mandate_signature H m policy.require_signed_mandate
    if !sig_ok then return some (http 403 (joinReasons sig_reasons))
    else if auth.amount_minor_units > m.max_per_transaction then
      return some (http 403 "Authorization exceeds the current user mandate limit")
    else if H.upper auth.currency ≠ H.upper m.currency then
      return some (http 403 "Authorization currency no longer matches user mandate")
    else if !(m.allowed_merchants.map H.casefold).isEmpty &&
        !(m.allowed_merchants.map H.casefold).contains (H.casefold auth.merchant) then
      return some (http 403
        "Authorization merchant is no longer permitted by the user mandate")
    else return none

/-- The category allowlist accepts the intent's category. -/
def categoryAccepted (H : Host) (m : UserPaymentMandate) (intent : Option PaymentIntent) : Bool :=
  (m.allowed_categories.map H.casefold).isEmpty ||
    (let category := (intent.bind PaymentIntent.merchant_category).getD ""
     category != "" && (m.allowed_categories.map H.casefold).contains (H.casefold category))

/-- What a mandate without a refusal says of the authorization. -/
theorem mandateRefusal_none {H : Host} {auth : BoundedAuthorization} {m : UserPaymentMandate} {now : Instant}
    {policy : Host.MandatePolicy} (h : mandateRefusal H auth m now policy = some none) :
    m.valid_from ≤ now ∧ now ≤ m.expires_at ∧
      (∃ reasons, check_mandate_signature H m policy.require_signed_mandate = some (true, reasons)) ∧
      auth.amount_minor_units ≤ m.max_per_transaction ∧ H.upper auth.currency = H.upper m.currency ∧
      (m.allowed_merchants ≠ [] → H.casefold auth.merchant ∈ m.allowed_merchants.map H.casefold) := by
  unfold mandateRefusal at h
  split at h
  · exact absurd h (by simp)
  next hwindow =>
  obtain ⟨hexpires, hfrom⟩ := not_or.mp hwindow
  obtain ⟨⟨ok, reasons⟩, hsig, h⟩ := Option.bind_eq_some_iff.mp h
  dsimp only at h
  split at h
  · exact absurd h (by simp)
  next hok =>
  split at h
  · exact absurd h (by simp)
  next hcap =>
  split at h
  · exact absurd h (by simp)
  next hcurrency =>
  split at h
  · exact absurd h (by simp)
  next hmerchant =>
  have hok : ok = true := by simpa using hok
  exact ⟨not_lt.mp hfrom, not_lt.mp hexpires, ⟨reasons, by rw [hsig, hok]⟩, not_lt.mp hcap,
    not_not.mp hcurrency, fun hne => not_listed.mp (Bool.eq_false_iff.mpr hmerchant)
      fun heq => hne (List.map_eq_nil_iff.mp heq)⟩

/-- A category that is accepted is on the list, if there is one. -/
theorem categoryAccepted_listed {H : Host} {m : UserPaymentMandate} {intent : Option PaymentIntent}
    (h : categoryAccepted H m intent = true) (hlist : m.allowed_categories ≠ []) :
    (intent.bind PaymentIntent.merchant_category).getD "" ≠ "" ∧
      H.casefold ((intent.bind PaymentIntent.merchant_category).getD "") ∈
        m.allowed_categories.map H.casefold := by
  unfold categoryAccepted at h
  have hlisted := (Bool.or_eq_true_iff.mp h).resolve_left fun hnil =>
    hlist (List.map_eq_nil_iff.mp (List.isEmpty_iff.mp hnil))
  obtain ⟨hset, hmem⟩ := Bool.and_eq_true_iff.mp hlisted
  exact ⟨bne_iff_ne.mp hset, List.contains_iff_mem.mp hmem⟩

/-- The mandate block of `_revalidate_execution`. -/
def revalidate_mandate (H : Host) (auth : BoundedAuthorization) (agent : Agent)
    (mandate_id : String) (now : Instant) : Handler (Except Reply Unit) := do
  let mandate ← Handler.query fun db => db.mandates.find? fun m =>
    m.mandate_id == mandate_id && m.agent_id == agent.agent_id && m.org_id == agent.org_id
  match mandate.filter fun m => m.status = .active with
  | none => return .error (http 403 "User payment mandate is no longer active")
  | some m =>
    match H.mandate_policy with
    | .error e => return .error (.error e)
    | .ok policy =>
      match mandateRefusal H auth m now policy with
      | none => .halt
      | some (some refusal) => return .error refusal
      | some none => do
        let intent ← Handler.query fun db =>
          db.intents.find? fun i => i.intent_id == auth.intent_id
        if !categoryAccepted H m intent then
          return .error (http 403
            "Authorization category is no longer permitted by the user mandate")
        return .ok ()

/-- `_revalidate_execution` -/
def revalidate_execution (H : Host) (auth : BoundedAuthorization) :
    Handler (Except Reply Agent) := do
  let agent ← Handler.query fun db =>
    db.agents.find? fun a => a.agent_id == auth.agent_id && a.org_id == auth.org_id
  let now ← Handler.now
  match agent.filter fun a => a.status = .active with
  | none => return .error (http 403 "Agent is no longer active")
  | some agent => do
  let parent ← Handler.query fun db => parent_for db agent
  if !(parent.any fun p => p.status = .active) then
    return .error (http 403 "Parent authority is no longer active")
  if agent.valid_until.any fun v => v < now then
    return .error (http 403 "Delegation expired")
  let cred ← Handler.query fun db => currentCredential db agent.id
  if !(cred.any fun c => now ≤ c.expires_at) then
    return .error (http 403 "No current valid credential")
  if auth.expires_at < now then
    return .error (http 410 "Authorization has expired")
  if !present auth.mandate_id then
    return .ok agent
  let checked ← revalidate_mandate H auth agent (auth.mandate_id.getD "") now
  return checked.map fun _ => agent

theorem revalidate_mandate_reads (H : Host) (auth : BoundedAuthorization) (agent : Agent)
    (mandate_id : String) (now : Instant) :
    (revalidate_mandate H auth agent mandate_id now).Reads fun _ => True := by
  refine Handler.reads_query fun mandate => ?_
  split
  · simp
  split
  · simp
  split
  · simp
  · simp
  refine Handler.reads_query fun intent => ?_
  split <;> simp

theorem revalidate_execution_reads (H : Host) (auth : BoundedAuthorization) :
    (revalidate_execution H auth).Reads fun _ => True := by
  refine Handler.reads_query fun agent => Handler.reads_now fun now => ?_
  split
  · simp
  refine Handler.reads_query fun parent => ?_
  split
  · simp
  split
  · simp
  refine Handler.reads_query fun cred => ?_
  split
  · simp
  split
  · simp
  split
  · simp
  exact Handler.reads_bind (revalidate_mandate_reads _ _ _ _ _) fun _ _ => by simp

/-! ## The agentic path -/

/-- `_active_provider_binding` -/
def active_provider_binding (db : DB) (auth : BoundedAuthorization) (now : Instant) :
    Option PaymentInstrumentBinding :=
  if !present auth.mandate_id then none
  else db.bindings.find? fun b =>
    some b.mandate_id == auth.mandate_id && b.org_id == auth.org_id && b.status == "active" &&
      b.expires_at.all fun e => now < e

/-- What the two settlement paths share. -/
structure Execution where
  auth : BoundedAuthorization
  agent_id : String
  parent_id : Option String
  llm : List (String × Json)

/-- An audit event of the execution. -/
def Execution.audit (x : Execution) (kind : String) (detail : List (String × Json)) : AuditArgs where
  transaction_id := x.auth.transaction_id
  agent_id := x.agent_id
  parent_id := x.parent_id
  kind := kind
  org_id := some x.auth.org_id
  detail := detail ++ x.llm

/-- Commit the row and answer with its state as it is then. -/
def answerConsumed (x : Execution) (pending : Session) (row : Orm) (payment_ref : Json) :
    Handler Reply := do
  Handler.commit (pending ++ [row.write])
  let row ← loadTxn x.auth.authorization_id
  return .consumed {
    authorization_id := x.auth.authorization_id, consumed := true, remaining_uses := 0
    state := row.cur.state, razorpay_order_id := none, razorpay_payment_id := payment_ref }

/-- The read-back of `_consume_agentic_settlement` confirms the capture. -/
def corroborated (H : Host) (auth : BoundedAuthorization) (data : Json) : Except PyError Bool := do
  let status ← data.getD "status" (.str "")
  if pyLower H.toText status ≠ "captured" then return false
  let amount ← pyInt H.toText (← data.getD "amount" (.int (-1)))
  if amount ≠ auth.amount_minor_units then return false
  let currency ← data.getD "currency" (.str "")
  return pyUpper H.toText currency = H.upper auth.currency

/-- From the captured reply on: read the payment back before calling it paid. -/
def confirm_agentic (H : Host) (x : Execution) (pending : Session) (row : Orm)
    (payment_ref : Json) : Handler (Except Raised Reply) := do
  match (row.move .PROVIDER_AUTHORIZED).bind (·.move .CAPTURED) with
  | .error e => return .error ⟨e, some row, pending⟩
  | .ok row => do
  let payment_data ← Handler.send (.agentic x.auth.org_id) (.agentic_get_payment payment_ref)
  match payment_data with
  | .error e => return .error ⟨e, some row, pending⟩
  | .ok data =>
    match corroborated H x.auth data with
    | .error e => return .error ⟨.python e, some row, pending⟩
    | .ok false =>
      let reply ← answerConsumed x pending (row.fail
        "Provider readback did not corroborate captured amount/currency; reconciliation required")
        payment_ref
      return .ok reply
    | .ok true =>
      match row.move .PAID with
      | .error e => return .error ⟨e, some row, pending⟩
      | .ok row => do
      let s ← record_audit H pending (x.audit "agentic_settlement" [
        ("authorization_id", .str x.auth.authorization_id),
        ("provider_payment_ref", payment_ref),
        ("amount_minor_units", .int x.auth.amount_minor_units),
        ("currency", .str x.auth.currency), ("previous_state", .str "PROVIDER_SUBMITTED"),
        ("current_state", .str "PAID"), ("settlement_source", .str "provider-native-agentic")])
      let reply ← answerConsumed x s row payment_ref
      return .ok reply

/-- The capture reply decides: captured, pending, refused, or unknown. -/
def settle_capture (H : Host) (x : Execution) (pending : Session) (row : Orm)
    (payment_ref capture_result : Json) : Handler (Except Raised Reply) := do
  match capture_result.getD "status" (.str "") with
  | .error e => return .error ⟨.python e, some row, pending⟩
  | .ok status => do
  let capture_status := pyLower H.toText status
  -- `capture_result.get("status")`: unlike the status above, `None` when it is absent
  let raw := ((capture_result.get "status").toOption).getD .null
  let finish (to_state : TxnState) (text : String) : Handler (Except Raised Reply) :=
    match row.move to_state with
    | .error e => return .error ⟨e, some row, pending⟩
    | .ok row => do
      let reply ← answerConsumed x pending (row.fail (slice 2000 text)) payment_ref
      return .ok reply
  if capture_status ∈ ["captured", "already_captured"] then
    confirm_agentic H x pending row payment_ref
  else if capture_status ∈ ["authorized", "pending", "processing", "created"] then
    finish .PROVIDER_AUTHORIZED ("Provider capture pending: " ++ pyStr H.toText raw)
  else if capture_status ∈ ["failed", "declined", "cancelled", "canceled"] then
    finish (if capture_status = "failed" then .FAILED else .DECLINED)
      ("Provider capture returned terminal failure: " ++ pyStr H.toText raw)
  else
    finish .PROVIDER_UNKNOWN ("Provider capture outcome is unknown: " ++ H.repr raw)

/-- `finish` of `settle_capture` -/
def finish_capture (x : Execution) (pending : Session) (row : Orm) (payment_ref : Json)
    (to_state : TxnState) (text : String) : Handler (Except Raised Reply) :=
  match row.move to_state with
  | .error e => return .error ⟨e, some row, pending⟩
  | .ok row => do
    let reply ← answerConsumed x pending (row.fail (slice 2000 text)) payment_ref
    return .ok reply

/-- From the accepted debit request on: flush `PROVIDER_SUBMITTED`, then capture. -/
def capture_agentic (H : Host) (x : Execution) (adapter : AgenticAdapter) (payment_ref : Json) :
    Handler (Except Raised Reply) := do
  let row ← loadTxn x.auth.authorization_id
  let old_state := row.cur.state
  match row.move .PROVIDER_SUBMITTED with
  | .error e => return .error ⟨e, some row, []⟩
  | .ok moved =>
    match bindText payment_ref with
    | none => .halt
    | some payment_id => do
    let stamped := moved.set fun t =>
      (adapter.provenance.elim t fun v => v.stamp t)
    let row := stamped.set fun t => { t with razorpay_payment_id := payment_id }
    let states := [("previous_state", Json.str old_state.word),
      ("current_state", .str "PROVIDER_SUBMITTED")]
    let s ← record_audit H [row.write] (x.audit "authorization_consumed"
      ([("authorization_id", .str x.auth.authorization_id), ("remaining_uses", .int 0)] ++
        states ++ [("settlement_mode", .str "provider-native-autonomous")]))
    let s ← record_audit H s (x.audit "provider_submitted"
      ([("authorization_id", .str x.auth.authorization_id), ("provider_payment_ref", payment_ref),
        ("amount_minor_units", .int x.auth.amount_minor_units),
        ("currency", .str x.auth.currency)] ++ states ++
        [("settlement_source", .str "agentic")]))
    let row := row.flushed
    let capture ← Handler.send (.agentic x.auth.org_id) (.capture_payment payment_ref
      x.auth.amount_minor_units x.auth.currency (x.auth.authorization_id ++ ":capture"))
    match capture with
    | .error exc =>
      let row := (row.moveOrPass .PROVIDER_UNKNOWN).fail
        (slice 2000 ("Agentic capture outcome unknown: " ++ exc.text H.toText))
      let reply ← answerConsumed x s row payment_ref
      return .ok reply
    | .ok capture_result => settle_capture H x s row payment_ref capture_result

/-- Fail the transaction closed, and answer. -/
def failClosed (x : Execution) (text : String) (answer : Orm → Reply) : Handler Reply := do
  let row ← loadTxn x.auth.authorization_id
  Handler.commit [((row.moveOrPass .FAILED).fail text).write]
  let row ← loadTxn x.auth.authorization_id
  return answer row

/-- `_consume_agentic_settlement`: no fallback to a checkout order. -/
def consume_agentic_settlement (H : Host) (x : Execution) (adapter : AgenticAdapter) :
    Handler (Except Raised Reply) := do
  let now ← Handler.now
  let binding ← Handler.query fun db => active_provider_binding db x.auth now
  match binding with
  | none =>
    let reply ← failClosed x
      "Autonomous mode requires an active provider payment-instrument binding"
      fun row => http 409 (row.cur.last_error.getD "")
    return .ok reply
  | some binding => do
  let wallet := Recipient.agentic x.auth.org_id
  let validation ← Handler.send wallet (.validate_mandate binding.provider_mandate_ref)
  match validation with
  | .error e => return .error { exc := e }
  | .ok validation =>
    match validation.get "valid", validation.get "reason", validation.get "status" with
    | .ok valid, .ok reason, .ok status => do
      if !valid.truthy then
        let shown := (reason.orElse status).orElse (.str "unknown")
        let reply ← failClosed x ("Provider mandate is not valid: " ++ pyStr H.toText shown)
          fun _ => http 409 "Provider mandate is not active for autonomous payment"
        return .ok reply
      let auth_result ← Handler.send wallet (.authorize_payment x.auth.authorization_id
        binding.provider_mandate_ref x.auth.amount_minor_units x.auth.currency x.auth.merchant
        (x.auth.authorization_id ++ ":agentic"))
      match auth_result with
      | .error e => return .error { exc := e }
      | .ok auth_result =>
        match auth_result.get "provider_payment_ref", auth_result.get "id" with
        | .ok ref, .ok id =>
          if !(ref.orElse id).truthy then
            return .error ⟨.other
              "Provider autonomous authorization returned no payment reference", none, []⟩
          else capture_agentic H x adapter (ref.orElse id)
        | _, _ => return .error { exc := .python .attributeError }
    | _, _, _ => return .error { exc := .python .attributeError }

/-- The `except` blocks around `_consume_agentic_settlement`. -/
def agentic_path (H : Host) (x : Execution) (adapter : AgenticAdapter) : Handler Reply := do
  let result ← consume_agentic_settlement H x adapter
  match result with
  | .ok reply => return reply
  | .error raised =>
    match raised.exc with
    | .timeout text => do
      let row ← raised.access x.auth.authorization_id
      Handler.commit (raised.pending ++ [((row.moveOrPass .PROVIDER_UNKNOWN).fail
        (slice 2000 ("Provider autonomous payment timeout: " ++ text))).write])
      return .provider_unknown x.auth.authorization_id
        "Autonomous provider execution outcome is unknown; reconciliation required"
    | .http e => return .error e
    | exc => do
      let row ← raised.access x.auth.authorization_id
      Handler.commit (raised.pending ++ [((row.moveOrPass .FAILED).fail
        (slice 2000 ("Autonomous provider execution failed: " ++ exc.text H.toText))).write])
      return http 502 ("Autonomous provider execution failed; authorization remains spent " ++
        "and requires reconciliation")

/-! ## The order-based path -/

/-- `_provider_order_matches` -/
def provider_order_matches (H : Host) (auth : BoundedAuthorization) (order : Json) :
    Except PyError Bool := do
  let receipt ← order.getD "receipt" (.str "")
  if pyStr H.toText receipt ≠ auth.authorization_id then return false
  let amount ← pyInt H.toText (← order.getD "amount" (.int (-1)))
  if amount ≠ auth.amount_minor_units then return false
  let currency ← order.getD "currency" (.str "")
  return pyUpper H.toText currency = H.upper auth.currency

/-- The order the provider answered with belongs to this authorization: record it. -/
def submit_order (H : Host) (x : Execution) (provider : RazorpayAdapter) (order : Json) :
    Handler (Except Raised Reply) := do
  match order.get "id" with
  | .error e => return .error { exc := .python e }
  | .ok id =>
    match bindText id with
    | none => .halt
    | some order_id => do
    let row ← loadTxn x.auth.authorization_id
    let old_state := row.cur.state
    let row := (row.set fun t => { t with razorpay_order_id := order_id }).set
      (provider.provenance H).stamp
    match row.move .PROVIDER_SUBMITTED with
    | .error e => return .error ⟨e, some row, []⟩
    | .ok row => do
    let states := [("previous_state", Json.str old_state.word),
      ("current_state", .str "PROVIDER_SUBMITTED")]
    let s ← record_audit H [row.write] (x.audit "authorization_consumed"
      ([("authorization_id", .str x.auth.authorization_id), ("remaining_uses", .int 0)] ++ states))
    let s ← record_audit H s (x.audit "order_submitted"
      ([("authorization_id", .str x.auth.authorization_id), ("razorpay_order_id", id),
        ("amount_minor_units", .int x.auth.amount_minor_units),
        ("currency", .str x.auth.currency)] ++ states))
    Handler.commit s
    let row ← loadTxn x.auth.authorization_id
    return .ok (.consumed {
      authorization_id := x.auth.authorization_id, consumed := true, remaining_uses := 0
      state := row.cur.state, razorpay_order_id := row.cur.razorpay_order_id
      razorpay_payment_id := jsonOpt row.cur.razorpay_payment_id })

/-- The checkout order, when no agentic capability is configured. -/
def create_order (H : Host) (x : Execution) : Handler (Except Raised Reply) := do
  let provider ← Handler.query fun db => provider_for H db x.auth.org_id
  match provider with
  | .error e => return .error { exc := e }
  | .ok provider => do
  let order ← provider.create_payment H x.auth.authorization_id x.auth.amount_minor_units
    x.auth.currency [("paari_transaction_id", x.auth.transaction_id),
      ("paari_agent_id", x.agent_id)]
  match order with
  | .error e => return .error { exc := e }
  | .ok order =>
    match provider_order_matches H x.auth order with
    | .error e => return .error { exc := .python e }
    | .ok true => submit_order H x provider order
    | .ok false => do
      let row ← loadTxn x.auth.authorization_id
      match row.move .FAILED with
      | .error e => return .error ⟨e, some row, []⟩
      | .ok row => do
      Handler.commit [(row.fail "Provider order did not match authorization bounds").write]
      return .ok (http 502 "Provider order failed Paari authorization integrity checks")

/-- The `except` blocks of `consume_authorization`. -/
def handle_raised (H : Host) (x : Execution) (raised : Raised) : Handler Reply := do
  let record (to_state : TxnState) (text : String) : Handler Unit := do
    let row ← raised.access x.auth.authorization_id
    Handler.commit (raised.pending ++ [((row.moveOrPass to_state).fail text).write])
  match raised.exc with
  | .http e => return .error e
  | .timeout text => do
    record .PROVIDER_UNKNOWN (slice 2000 ("Provider timeout: " ++ text))
    return .provider_unknown x.auth.authorization_id
      "Provider execution outcome is unknown; reconciliation required"
  | .razorpayConfig text => do
    record .FAILED (slice 2000 text)
    return http 502 "Payment provider is not configured for this organization"
  | .agenticUnavailable _ => do
    record .FAILED "Agentic provider configuration is unavailable"
    let row ← loadTxn x.auth.authorization_id
    return http 503 (row.cur.last_error.getD "")
  | exc => do
    record .FAILED (slice 2000 (exc.text H.toText))
    return http 502 "Provider execution failed; authorization remains spent"

/-- The execution once the reservation is committed. -/
def execute (H : Host) (x : Execution) : Handler Reply := do
  match get_agentic_provider H x.auth.org_id with
  | .error e => handle_raised H x { exc := e }
  | .ok agentic =>
    match H.mandate_policy with
    | .error e => return .error e
    | .ok policy =>
      if agentic.supports_autonomous_settlement then agentic_path H x agentic
      else if policy.mode = .autonomous then
        failClosed x ("Autonomous payment requested but no provider-native agentic " ++
          "settlement capability is configured for this organization")
          fun row => http 503 (row.cur.last_error.getD "")
      else do
        let result ← create_order H x
        match result with
        | .ok reply => return reply
        | .error raised => handle_raised H x raised

/-- The transaction row counts one more attempt, in the reservation's own commit. -/
def countAttempt (auth : BoundedAuthorization) : Option ProviderTransaction → Session
  | some t => [.updateTxn t { t with attempts := t.attempts + 1 }]
  | none =>
    let t := record_provider_txn auth
    [.insertTxn t, .updateTxn t { t with attempts := t.attempts + 1 }]

/-- `consume_authorization` -/
def consume_authorization (H : Host) (ctx : RequestContext)
    (authorization_id session_token : String) : Handler Reply := do
  let auth ← Handler.query fun db =>
    db.authorizations.find? fun a => a.authorization_id == authorization_id
  match auth with
  | none => return http 404 "Authorization not found"
  | some auth =>
  Handler.attempt (pure (resolve_session_token H session_token ctx.authorization)) fun token =>
  Handler.attempt (authenticate H ctx token (some auth.agent_id)) fun ⟨_, _, pending⟩ =>
  Handler.attempt (revalidate_execution H auth) fun agent => do
  let reserved ← Handler.reserve authorization_id .consume
  if !reserved then
    Handler.rollback
    return http 409 "Authorization already used or revoked"
  let txn ← Handler.query fun db =>
    db.txns.find? fun t => t.authorization_id == authorization_id
  Handler.commit (pending ++ countAttempt auth txn)
  let parent ← Handler.query fun db => parent_for db agent
  let llm ← Handler.query fun db => causal_labels db auth.intent_id
  execute H ⟨auth, agent.agent_id, parent.map ParentAuthority.parent_id, llm⟩

end Paari
