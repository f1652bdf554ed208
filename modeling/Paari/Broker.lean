import Mathlib.Data.List.Sort
import Paari.Models

/-!
# The broker between a language model and the service

The model sees one function, `execute(name, arguments)`. `validate` checks the arguments
against the contract of the tool; the handler of the tool then refuses, or makes one
request with the client that holds the agent's key. Everything the model sends, and
everything the server answers, is arbitrary here.
-/

namespace Paari

/-! ## Tool contracts -/

/-- The types the contracts name. -/
inductive ArgType
  | str | int
deriving DecidableEq

/-- `_SPECS` -/
def toolSpec : String → Option (List (String × ArgType))
  | "get_delegation" => some []
  | "get_payment_authority" => some []
  | "propose_payment" => some [("merchant", .str), ("amount_minor_units", .int), ("currency", .str),
      ("purpose", .str), ("merchant_category", .str)]
  | "confirm_payment" => some [("authorization_id", .str)]
  | "read_proof" => some [("transaction_id", .str)]
  | _ => none

/-- `_REQUIRED` -/
def toolRequired : String → List String
  | "propose_payment" => ["merchant", "amount_minor_units", "currency"]
  | "confirm_payment" => ["authorization_id"]
  | "read_proof" => ["transaction_id"]
  | _ => []

/-- `MAX_STR_LEN.get(key, 200)` -/
def maxStrLen : String → Nat
  | "merchant" => 80
  | "purpose" => 300
  | "authorization_id" => 128
  | "transaction_id" => 128
  | "currency" => 8
  | "merchant_category" => 80
  | _ => 200

structure ToolArgsError where
  code : String
  message : String

/-- `", ".join(xs)` -/
def joinComma (xs : List String) : String := ", ".intercalate xs

/-- `sorted(xs)` -/
def sorted (xs : List String) : List String := xs.insertionSort (· ≤ ·)

/-- One argument against its type; a string comes back stripped. -/
def checkArg (T : Text) (tool key : String) (expected : ArgType) (value : Json) :
    Except ToolArgsError Json :=
  let wrong (text : String) : Except ToolArgsError Json :=
    .error ⟨"BAD_ARGUMENT_TYPE", tool ++ "." ++ key ++ text⟩
  match expected, value with
  | .int, .int i => .ok (.int i)
  | .int, _ => wrong " must be an integer"
  | .str, .str s =>
    let limit := maxStrLen key
    let s := T.strip s
    if s = "" then wrong " must not be empty"
    else if s.length > limit then
      .error ⟨"ARGUMENT_TOO_LONG", tool ++ "." ++ key ++ " exceeds " ++ toString limit ++ " characters"⟩
    else .ok (.str s)
  | .str, .null => .ok .null
  | .str, _ => wrong " must be a string"

/-- The last loop of `validate`: the arguments that are there, in the order of the contract. -/
def checkArgs (T : Text) (tool : String) (args : List (String × Json)) :
    List (String × ArgType) → Except ToolArgsError (List (String × Json))
  | [] => .ok []
  | (key, expected) :: spec =>
    match args.lookup key with
    | none => checkArgs T tool args spec
    | some value => do
      let v ← checkArg T tool key expected value
      let clean ← checkArgs T tool args spec
      return (key, v) :: clean

/-- `validate` -/
def validate (T : Text) (name : String) (args : Json) : Except ToolArgsError (List (String × Json)) :=
  match toolSpec name with
  | none => .error ⟨"UNKNOWN_TOOL", "'" ++ name ++ "' is not a tool you may call"⟩
  | some spec =>
    let object : Option (List (String × Json)) :=
      match args with
      | .null => some []
      | .dict kvs => some kvs
      | _ => none
    match object with
    | none => .error ⟨"BAD_ARGUMENTS", "arguments must be an object"⟩
    | some args =>
      let unknown := sorted ((args.map Prod.fst).dedup.filter fun k => !spec.any fun kv => kv.1 == k)
      let accepted := joinComma (sorted (spec.map Prod.fst))
      let missing := (toolRequired name).filter fun k => ((args.lookup k).getD .null).isNull
      if unknown ≠ [] then
        .error ⟨"UNKNOWN_ARGUMENT", name ++ " does not accept " ++ joinComma unknown ++
          "; accepted: " ++ (if accepted = "" then "none" else accepted)⟩
      else if missing ≠ [] then
        .error ⟨"MISSING_ARGUMENT", name ++ " is missing " ++ joinComma missing⟩
      else checkArgs T name args spec

/-! ## The client -/

/-- The body of `PaariAgentClient.payment_intent`. -/
structure IntentBody where
  transaction_id : String
  idempotency_key : String
  merchant : String
  amount_minor_units : Int
  currency : String
  purpose : Json
  merchant_category : Json
  llm : LlmCausal

/-- What the broker asks of the server. -/
inductive ClientCall
  | get_active_mandate
  | payment_intent (body : IntentBody)
  | consume (authorization_id : String)
  | proof_bundle (transaction_id : String)

/-- What comes back: a JSON body, a `PaariProtocolError`, or any other exception of the
transport. -/
inductive ClientAnswer
  | body (x : Json)
  | protocolError (status_code : Int) (detail : Json)
  | raised (text : String)

/-- What leaves `execute` as an exception. -/
inductive BrokerExc
  | brokerError (text : String)
  | transport (text : String)
  | python (e : PyError)

/-! ## The broker -/

structure CausalContext where
  run_id : String
  model : String
  tool_call_id : Option String
  tool_name : Option String

/-- `_Pending` -/
structure PendingPayment where
  authorization_id : String
  transaction_id : String
  merchant : String
  amount_minor_units : Int
  currency : String
  merchant_category : Json
  expires_at : Json

structure PaariBroker where
  /-- `client.agent_id` and `client.card`. -/
  agent_id : Option String
  card : Json
  /-- The client has `get_active_mandate`. -/
  reads_mandate : Bool
  max_amount_minor_units : Int
  currency : String
  max_consumes : Int
  causal : Option CausalContext
  pending : List (String × PendingPayment)
  known_transactions : List String
  consumes : Int

/-- How a tool call ends: the broker afterwards, the request it made, and what the model
gets. -/
structure ToolOutcome where
  broker : PaariBroker
  sent : Option ClientCall
  result : Except BrokerExc Json

/-- `_refuse` -/
def refuse (code message : String) (extra : List (String × Json)) : Json :=
  .dict ([("ok", .bool false), ("code", .str code), ("error", .str message)] ++ extra)

/-- `len(x)` -/
def pyLen : Json → Except PyError Int
  | .list xs => .ok xs.length
  | .dict kvs => .ok kvs.length
  | .str s => .ok s.length
  | _ => .error .typeError

/-- `dict(x)`; a signed card holds an object there. -/
def pyDict : Json → Except PyError Json
  | .dict kvs => .ok (.dict kvs)
  | _ => .error .typeError

/-- `d[k] = v` -/
def assign (k : String) (v : PendingPayment) :
    List (String × PendingPayment) → List (String × PendingPayment)
  | [] => [(k, v)]
  | (k', v') :: kvs => if k' = k then (k, v) :: kvs else (k', v') :: assign k v kvs

namespace PaariBroker

variable (T : Text) (b : PaariBroker)

/-- The handler ends without a request. -/
def answer (result : Except PyError Json) : ToolOutcome := ⟨b, none, result.mapError .python⟩

/-- One request, and how the rest of the handler goes on with its body. `execute` turns
a protocol error into a refusal and lets every other exception through. -/
def request (call : ClientCall) (answer : ClientAnswer)
    (k : Json → PaariBroker × Except BrokerExc Json) : ToolOutcome :=
  match answer with
  | .body x => ⟨(k x).1, some call, (k x).2⟩
  | .protocolError status detail =>
    ⟨b, some call, .ok (refuse "SERVER_REJECTED" (pyStr T detail) [("http_status", .int status)])⟩
  | .raised text => ⟨b, some call, .error (.transport text)⟩

/-- `_tool_get_delegation` -/
def tool_get_delegation : ToolOutcome :=
  b.answer do
    let card := b.card.orEmpty
    let card_limits ← pyDict ((← card.get "limits").orEmpty)
    let capabilities := (← card.get "capabilities").orElse (.list [])
    return .dict [("ok", .bool true), ("agent_id", (b.agent_id.map Json.str).getD .null),
      ("currency", .str b.currency), ("max_amount_minor_units", .int b.max_amount_minor_units),
      ("card_limits", card_limits), ("capabilities", capabilities),
      ("payments_remaining", .int (b.max_consumes - b.consumes))]

/-- `_tool_get_payment_authority`: a 404 is an answer of its own. -/
def tool_get_payment_authority (answer : ClientAnswer) : ToolOutcome :=
  if !b.reads_mandate then
    b.answer (.ok (refuse "MANDATE_UNAVAILABLE"
      "this client does not expose the user payment mandate endpoint" []))
  else
    match answer with
    | .protocolError 404 _ =>
      ⟨b, some .get_active_mandate,
        .ok (refuse "NO_ACTIVE_MANDATE" "there is no active user payment mandate" [])⟩
    | answer =>
      b.request T .get_active_mandate answer fun mandate =>
        (b, .ok (.dict [("ok", .bool true), ("authority_type", .str "user_payment_mandate"),
          ("mandate", mandate)]))

/-- What `_tool_propose_payment` makes of the body: the answer to the model and, when the
payment was allowed, what it may confirm. -/
def proposal_reply (body : Json) (req : IntentBody) :
    Except PyError (Json × Option PendingPayment) := do
  let decision := pyLower T (← body.getD "decision" (.str ""))
  let reasons ← pyList ((← body.get "reasons").orElse (.list []))
  if decision ≠ "allow" then
    let mfa_required ← body.get "mfa_required"
    let status := if decision = "deny" then "denied" else if decision = "" then "unknown" else decision
    let reasons := if reasons.isEmpty then [Json.str "no reason recorded"]
      else reasons.map fun r => .str (pyStr T r)
    return (.dict [("ok", .bool false), ("status", .str status), ("decision", .str decision),
      ("reasons", .list reasons), ("mfa_required", .bool mfa_required.truthy),
      ("transaction_id", .str req.transaction_id)], none)
  let authorization := (← body.get "authorization").orEmpty
  let authorization_id := pyStr T ((← authorization.get "authorization_id").orElse (.str ""))
  if authorization_id = "" then
    return (refuse "NO_AUTHORIZATION"
      "governance allowed this payment but issued no authorization to spend"
      [("transaction_id", .str req.transaction_id)], none)
  let expires_at ← authorization.get "expires_at"
  return (.dict [("ok", .bool true), ("status", .str "authorized"),
      ("authorization_id", .str authorization_id), ("transaction_id", .str req.transaction_id),
      ("merchant", .str req.merchant), ("amount_minor_units", .int req.amount_minor_units),
      ("currency", .str req.currency), ("expires_at", expires_at),
      ("next_step", .str "call confirm_payment with this authorization_id to execute it")],
    some {
      authorization_id := authorization_id, transaction_id := req.transaction_id
      merchant := req.merchant, amount_minor_units := req.amount_minor_units
      currency := req.currency, merchant_category := req.merchant_category
      expires_at := expires_at })

/-- The rest of `_tool_propose_payment`, once the body is there. -/
def proposal_done (req : IntentBody) (body : Json) : PaariBroker × Except BrokerExc Json :=
  if !body.isDict then (b, .error (.brokerError "payment_intent returned a non-object body"))
  else
    match proposal_reply T body req with
    | .error e => (b, .error (.python e))
    | .ok (reply, none) => (b, .ok reply)
    | .ok (reply, some p) =>
      ({ b with pending := assign p.authorization_id p b.pending }, .ok reply)

/-- `_tool_propose_payment`; `hex` is what `uuid.uuid4().hex` returns. -/
def tool_propose_payment (merchant : String) (amount_minor_units : Int) (currency : String)
    (purpose merchant_category : Json) (hex : String) (answer : ClientAnswer) : ToolOutcome :=
  if amount_minor_units ≤ 0 then
    b.answer (.ok (refuse "BAD_AMOUNT" "amount_minor_units must be positive"
      [("max_amount_minor_units", .int b.max_amount_minor_units)]))
  else if amount_minor_units > b.max_amount_minor_units then
    b.answer (.ok (refuse "AMOUNT_OVER_LIMIT" (toString amount_minor_units ++
        " exceeds the granted cap of " ++ toString b.max_amount_minor_units ++ " " ++ b.currency ++
        ". Propose less, or ask the parent to re-delegate.")
      [("max_amount_minor_units", .int b.max_amount_minor_units), ("currency", .str b.currency)]))
  else if T.upper currency ≠ T.upper b.currency then
    b.answer (.ok (refuse "UNSUPPORTED_CURRENCY" ("only " ++ b.currency ++ " is delegated to you")
      [("currency", .str b.currency)]))
  else
    let transaction_id := "TXN-llm-" ++ slice 8 hex
    -- Registered before the request is made.
    let b := { b with known_transactions := transaction_id :: b.known_transactions }
    let req : IntentBody := {
      transaction_id := transaction_id, idempotency_key := "idem-" ++ transaction_id
      merchant := merchant, amount_minor_units := amount_minor_units, currency := b.currency
      purpose := purpose.orElse (.str "llm agent payment"), merchant_category := merchant_category
      llm := match b.causal with
        | none => ⟨none, none, none, none⟩
        | some c => ⟨some c.run_id, some c.model, c.tool_call_id,
            some (if c.tool_name.getD "" = "" then "propose_payment" else c.tool_name.getD "")⟩ }
    b.request T (.payment_intent req) answer (b.proposal_done T req)

/-- `_tool_confirm_payment` -/
def tool_confirm_payment (authorization_id : String) (answer : ClientAnswer) : ToolOutcome :=
  if b.consumes ≥ b.max_consumes then
    b.answer (.ok (refuse "CONSUME_LIMIT"
      ("this run may execute at most " ++ toString b.max_consumes ++ " payment(s)") []))
  else
    match b.pending.lookup authorization_id with
    | none =>
      b.answer (.ok (refuse "UNKNOWN_AUTHORIZATION"
        ("only an authorization_id returned by a successful propose_payment in " ++
          "this run can be confirmed")
        [("known", .list (b.pending.map fun kv => .str kv.1))]))
    | some p =>
      -- Taken out before the request is made.
      let b := { b with pending := b.pending.filter fun kv => kv.1 != authorization_id }
      b.request T (.consume p.authorization_id) answer fun result =>
        match result with
        | .dict kvs =>
          let field (k : String) : Json := (kvs.lookup k).getD .null
          ({ b with consumes := b.consumes + 1 }, .ok (.dict [("ok", .bool true),
            ("state", field "state"),
            ("provider_order_id", (field "razorpay_order_id").orElse (field "razorpay_payment_id")),
            ("remaining_uses", field "remaining_uses"), ("authorization_id", .str p.authorization_id),
            ("transaction_id", .str p.transaction_id), ("merchant", .str p.merchant),
            ("amount_minor_units", .int p.amount_minor_units)]))
        | _ => (b, .error (.brokerError "consume returned a non-object body"))

/-- What `_tool_read_proof` reports of the bundle. -/
def proof_reply (bundle : Json) (transaction_id : String) : Except PyError Json := do
  let artifacts := (← bundle.get "artifacts").orEmpty
  let audit := (← artifacts.get "audit_record").orEmpty
  let execution := (← artifacts.get "payment_execution").orEmpty
  let result := (← artifacts.get "payment_result").orEmpty
  let events ← pyLen ((← audit.get "events").orElse (.list []))
  let chain_verified ← audit.get "chain_verified"
  let stages := match artifacts with
    | .dict kvs => kvs.map Prod.fst
    | _ => []
  return .dict [("ok", .bool true), ("transaction_id", .str transaction_id),
    ("chain_verified", .bool chain_verified.truthy), ("audit_event_count", .int events),
    ("stage_count", .int stages.length), ("stages", .list ((sorted stages).map Json.str)),
    ("state", ← execution.get "state"), ("final_state", ← result.get "final_state"),
    ("terminal", .bool (← result.get "terminal").truthy),
    ("webhook_verified", .bool (← result.get "webhook_verified").truthy),
    ("provider_order_id", ← result.get "provider_order_id"),
    ("settlement_source", ← result.get "settlement_source"),
    ("provider_environment", ← result.get "provider_environment")]

/-- `_tool_read_proof` -/
def tool_read_proof (transaction_id : String) (answer : ClientAnswer) : ToolOutcome :=
  if transaction_id ∉ b.known_transactions then
    b.answer (.ok (refuse "UNKNOWN_TRANSACTION"
      "you may only read proof for a transaction this run proposed" []))
  else
    b.request T (.proof_bundle transaction_id) answer fun bundle =>
      if !bundle.isDict then (b, .error (.brokerError "proof_bundle returned a non-object body"))
      else (b, (proof_reply bundle transaction_id).mapError .python)

/-- `handler(**clean)` -/
def dispatch (name : String) (clean : List (String × Json)) (hex : String)
    (answer : ClientAnswer) : ToolOutcome :=
  match name, clean.lookup "merchant", clean.lookup "amount_minor_units", clean.lookup "currency",
    clean.lookup "authorization_id", clean.lookup "transaction_id" with
  | "get_delegation", _, _, _, _, _ => b.tool_get_delegation
  | "get_payment_authority", _, _, _, _, _ => b.tool_get_payment_authority T answer
  | "propose_payment", some (.str merchant), some (.int amount), some (.str currency), _, _ =>
    b.tool_propose_payment T merchant amount currency ((clean.lookup "purpose").getD (.str ""))
      ((clean.lookup "merchant_category").getD .null) hex answer
  | "confirm_payment", _, _, _, some (.str authorization_id), _ =>
    b.tool_confirm_payment T authorization_id answer
  | "read_proof", _, _, _, _, some (.str transaction_id) => b.tool_read_proof T transaction_id answer
  | _, _, _, _, _, _ => b.answer (.error .typeError)

/-- `execute` -/
def execute (name : String) (args : Json) (hex : String) (answer : ClientAnswer) : ToolOutcome :=
  match validate T name args with
  | .error e => b.answer (.ok (refuse e.code e.message []))
  | .ok clean => b.dispatch T name clean hex answer

end PaariBroker

/-! ## Runs -/

/-- One tool call of the model, with the identifiers the loop stamps on the broker before
it, and with what the call will draw and hear back if it makes a request: whether the server
spends an authorization on it is the server's own affair. -/
structure Turn where
  name : String
  args : Json
  causal : Option CausalContext
  hex : String
  answer : ClientAnswer
  spent : Bool

/-- A request the broker made, and the turn that made it. -/
structure Outgoing where
  call : ClientCall
  turn : Turn

/-- The broker, and the requests it has made so far. -/
structure BrokerRun where
  broker : PaariBroker
  log : List Outgoing

/-- One turn. -/
def BrokerRun.step (T : Text) (r : BrokerRun) (t : Turn) : BrokerRun :=
  let o := { r.broker with causal := t.causal }.execute T t.name t.args t.hex t.answer
  ⟨o.broker, r.log ++ (o.sent.map fun call => ⟨call, t⟩).toList⟩

/-- A run of the model against a broker. -/
def PaariBroker.run (T : Text) (b : PaariBroker) (turns : List Turn) : BrokerRun :=
  turns.foldl (BrokerRun.step T) ⟨b, []⟩

theorem PaariBroker.run_snoc (T : Text) (b : PaariBroker) (turns : List Turn) (t : Turn) :
    b.run T (turns ++ [t]) = (b.run T turns).step T t := by
  unfold PaariBroker.run
  rw [List.foldl_append]
  rfl

end Paari
